import Axonyx.Core.ExprForms
import Mathlib.Algebra.Order.BigOperators.Group.List

/-! The parser adds nothing: printed again, an expression has at most as many commas and opening
brackets as the text it was read from. A scanner that cuts a text at a comma of a string
leaves too few for the part. -/
namespace Axonyx.Core.Printer

open Nesting Text Axonyx.Core.Parser

variable {F : Type} [Float64 F] {floatText : AxFloat F → String} {parseF64 : String → Option F} {line : Nat}
  {x : Char}

/-- The characters that are counted. -/
def Counted (x : Char) : Prop := x = ',' ∨ x = '['

section Counting

theorem counted_off (counted : Counted x) : isIdentifierChar x = false ∧ isWhitespace x = false ∧
    x ∉ ['.', '-', '?', ':', '(', ')', '"', '\\'] := by
  rcases counted with rfl | rfl <;> decide

theorem count_eq_zero_of {text : List Char} {p : Char → Prop} (all : ∀ c ∈ text, p c) (off : ¬p x) :
    text.count x = 0 := List.count_eq_zero.mpr fun member => off (all x member)

theorem count_trim (text : List Char) (x : Char) : (trimChars text).count x ≤ text.count x := by
  have start : (trimStart text).Sublist text := (List.dropWhile_suffix _).sublist
  have finish : (trimChars text).Sublist (trimStart text) := (trimEnd_front (trimStart text)).sublist
  exact (finish.trans start).count_le x

theorem count_name (counted : Counted x) {name : String} (valid : isValidObjectKey name.toList = true) :
    name.toList.count x = 0 :=
  count_eq_zero_of (name_chars valid).2 (by simp [(counted_off counted).1])

theorem count_escape (counted : Counted x) (text : List Char) :
    (text.flatMap escapeChar).count x = text.count x := by
  induction text with
  | nil => rfl
  | cons c rest ih =>
    have step : (escapeChar c).count x = [c].count x := by
      unfold escapeChar
      rcases counted with rfl | rfl
      all_goals
        split
        · next same => rw [same]; rfl
        · split
          · next same => rw [same]; rfl
          · split
            · next same => rw [same]; rfl
            · split
              · next special => rcases special with rfl | rfl <;> rfl
              · rfl
    rw [List.flatMap_cons, List.count_append, step, ih, ← List.count_append, List.singleton_append]

theorem count_quoted (counted : Counted x) (text : String) : (quoted text).count x = text.toList.count x := by
  have quote : (x == '"') = false ∧ ('"' == x) = false := by rcases counted with rfl | rfl <;> decide
  rw [quoted, List.count_cons, List.count_append, count_escape counted, List.count_singleton]
  simp [quote]

theorem unescape_counted (counted : Counted x) {c : Char} (same : unescape c = x) : c = x := by
  unfold unescape at same
  split at same
  · rcases counted with rfl | rfl <;> exact absurd same (by decide)
  · split at same
    · rcases counted with rfl | rfl <;> exact absurd same (by decide)
    · split at same
      · rcases counted with rfl | rfl <;> exact absurd same (by decide)
      · exact same

theorem count_unescape (counted : Counted x) {text value : List Char} (read : unescapeChars text = some value) :
    value.count x ≤ text.count x := by
  fun_induction unescapeChars text generalizing value with
  | case1 =>
    obtain rfl := Option.some.inj read
    exact Nat.le_refl _
  | case2 => cases read
  | case3 c rest ih =>
    obtain ⟨later, found, rfl⟩ := Option.map_eq_some_iff.mp read
    have more := ih found
    have step : (if unescape c == x then 1 else 0) ≤ if c == x then 1 else 0 := by
      by_cases same : unescape c = x
      · obtain rfl := unescape_counted counted same
        simp [same]
      · simp [same]
    rw [List.count_cons, List.count_cons, List.count_cons]
    omega
  | case4 c rest _ _ ih =>
    obtain ⟨later, found, rfl⟩ := Option.map_eq_some_iff.mp read
    have more := ih found
    rw [List.count_cons, List.count_cons]
    omega

theorem count_parseQuotedString (counted : Counted x) {text : List Char} {value : String}
    (read : parseQuotedString text line = .ok (some value)) : value.toList.count x ≤ text.count x := by
  unfold parseQuotedString at read
  split at read
  · cases read
  · next quote rest =>
    split at read
    · cases read
    · split at read
      · cases read
      · split at read
        · next chars found =>
          obtain rfl := Option.some.inj (Except.ok.inj read)
          have inner := count_unescape counted found
          have shorter := (List.dropLast_sublist rest).count_le x
          have longer := List.count_le_count_cons (a := x) (b := quote) (l := rest)
          rw [String.toList_ofList]
          omega
        · cases read

theorem count_cut {whole before after : List Char} (split : before ++ after = whole) :
    before.count x + after.count x = whole.count x := by rw [← split, List.count_append]

theorem count_joined (parts : List (List Char)) (x : Char) (blank : x ≠ ' ') :
    (joined ',' parts).count x =
      (parts.map (List.count x)).sum + if ',' = x then parts.length - 1 else 0 := by
  induction parts with
  | nil => simp [joined]
  | cons part rest ih =>
    cases rest with
    | nil => simp [joined]
    | cons next rest =>
      rw [joined, List.count_append, List.count_cons, List.count_cons, ih]
      · by_cases same : x = ','
        · subst same
          simp
          omega
        · simp [Ne.symm same, Ne.symm blank]
      · exact List.cons_ne_nil next rest

/-- The pieces of a text have its characters but for the commas between them. -/
theorem count_pieces (text : List Char) (x : Char) :
    ((splitTopLevel text ',').map (List.count x)).sum +
        (if ',' = x then (splitTopLevel text ',').length - 1 else 0) ≤ text.count x := by
  have whole := @intercalate_pieces (escapeBlind ['(', '[', '{'] [')', ']', '}']) ',' start text
  have counts := count_intercalate x ',' (pieces (escapeBlind ['(', '[', '{'] [')', ']', '}']) ',' start text)
  rw [whole] at counts
  have trimmed : ((splitTopLevel text ',').map (List.count x)).sum ≤
      ((pieces (escapeBlind ['(', '[', '{'] [')', ']', '}']) ',' start text).map (List.count x)).sum := by
    rw [splitTopLevel, List.map_map]
    exact List.sum_le_sum fun piece _ => count_trim piece x
  have length : (splitTopLevel text ',').length =
      (pieces (escapeBlind ['(', '[', '{'] [')', ']', '}']) ',' start text).length := by simp [splitTopLevel]
  rw [length]
  omega

end Counting

section Bounds

/-- Nothing is added to the counted characters. -/
def Bounded (floatText : AxFloat F → String) (parseF64 : String → Option F) (x : Char)
    (f : List Char → Parsed (AxExpr F)) : Prop :=
  ∀ text expr, f text = .ok expr → WellFormed floatText parseF64 expr →
    (print floatText expr).count x ≤ text.count x

theorem count_operand (counted : Counted x) (expr : AxExpr F) :
    (operand floatText expr).count x = (print floatText expr).count x := by
  have round : ('(' == x) = false ∧ (')' == x) = false := by rcases counted with rfl | rfl <;> decide
  unfold operand
  split
  · rfl
  · simp [enclose, List.count_cons, round]

theorem count_dotted (counted : Counted x) {path : List String}
    (valid : ∀ name ∈ path, isValidObjectKey name.toList = true) : (dotted path).count x = 0 := by
  apply count_eq_zero_of (dotted_chars valid)
  rcases counted with rfl | rfl <;> decide

theorem parseTarget_bounded (counted : Counted x) {word : String} (valid : isValidObjectKey word.toList = true) :
    Bounded floatText parseF64 x (parseTarget line word : List Char → Parsed (AxExpr F)) := by
  intro text expr read _
  unfold parseTarget at read
  dsimp only at read
  split at read
  · cases read
  · obtain rfl := Except.ok.inj read
    have quote : ('(' == x) = false ∧ (')' == x) = false := by rcases counted with rfl | rfl <;> decide
    have inner (quoteChar : Char) (text : List Char) :
        ((text.dropWhile (· == quoteChar)).rdropWhile (· == quoteChar)).count x ≤ text.count x :=
      ((List.rdropWhile_prefix _ _).sublist.trans (List.dropWhile_suffix _).sublist).count_le x
    have name := (inner '\'' _).trans ((inner '"' (trimChars text)).trans (count_trim text x))
    have path : (dotted [word]).count x = 0 := count_dotted counted (by simpa using valid)
    simp only [print, printItems, joined, enclose, List.count_append, List.count_cons, path, count_quoted counted,
      String.toList_ofList, List.count_nil, quote]
    simpa using name

theorem numeric_kinds {text : List Char} {number : Parsed (AxExpr F)} {expr : AxExpr F}
    (literal : parseNumericLiteral parseF64 text line = some number) (read : number = .ok expr) :
    (∃ value, expr = .number value) ∨ ∃ value, expr = .float value := by
  subst read
  unfold parseNumericLiteral at literal
  dsimp only at literal
  generalize (if text.head? = some '-' then text.tail else text) = unsigned at literal
  split at literal
  · cases literal
  · split at literal
    · have same := Option.some.inj literal
      split at same
      · next value _ => exact .inl ⟨value, (Except.ok.inj same).symm⟩
      · cases same
    · split at literal
      · split at literal
        · split at literal
          · cases Option.some.inj literal
          · split at literal
            · next value _ => exact .inr ⟨value, (Except.ok.inj (Option.some.inj literal)).symm⟩
            · cases Option.some.inj literal
        · cases Option.some.inj literal
      · cases literal

theorem numeric_bounded (counted : Counted x) {text : List Char} {number : Parsed (AxExpr F)} {expr : AxExpr F}
    (literal : parseNumericLiteral parseF64 text line = some number) (read : number = .ok expr)
    (wf : WellFormed floatText parseF64 expr) : (print floatText expr).count x = 0 := by
  have digit : x.isDigit = false ∧ x ≠ '-' ∧ x ≠ '.' := by rcases counted with rfl | rfl <;> decide
  rcases numeric_kinds literal read with ⟨value, rfl⟩ | ⟨value, rfl⟩
  · exact count_eq_zero_of (toString_chars value) (by simp [digit])
  · exact count_eq_zero_of (float_chars wf) (by simp [digit])

/-- Members are names, and add nothing. -/
theorem parseMembers_bounded (counted : Counted x) {input cursor : List Char} {fuel : Nat} {object expr : AxExpr F}
    (read : parseMembers line input fuel object cursor = .ok expr) (wf : WellFormed floatText parseF64 expr) :
    WellFormed floatText parseF64 object ∧ (print floatText expr).count x = (print floatText object).count x := by
  induction fuel generalizing object cursor with
  | zero =>
    cases cursor with
    | nil =>
      obtain rfl := Except.ok.inj read
      exact ⟨wf, rfl⟩
    | cons c rest => cases read
  | succ fuel ih =>
    cases cursor with
    | nil =>
      obtain rfl := Except.ok.inj read
      exact ⟨wf, rfl⟩
    | cons c rest =>
      unfold parseMembers at read
      dsimp only at read
      split at read
      · cases read
      · split at read
        · cases read
        · have dots : ('.' == x) = false ∧ ('?' == x) = false := by rcases counted with rfl | rfl <;> decide
          split at read
          · obtain ⟨inner, same⟩ := ih read
            refine ⟨inner.1, same.trans ?_⟩
            have name := count_name counted inner.2
            rw [print, List.count_append, List.count_cons, List.count_cons, name]
            have object_same := @count_operand F _ floatText x counted object
            rw [operand] at object_same
            simp [dots, object_same]
          · obtain ⟨inner, same⟩ := ih read
            refine ⟨inner.1, same.trans ?_⟩
            have name := count_name counted inner.2
            rw [print, List.count_append, List.count_cons, name]
            have object_same := @count_operand F _ floatText x counted object
            rw [operand] at object_same
            simp [dots, object_same]

theorem mapM_bounded {f : List Char → Parsed (AxExpr F)} (bounded : Bounded floatText parseF64 x f)
    {parts : List (List Char)} {items : List (AxExpr F)} (read : parts.mapM f = .ok items)
    (wf : WellFormedItems floatText parseF64 items) :
    items.length = parts.length ∧
      ((printItems floatText items).map (List.count x)).sum ≤ (parts.map (List.count x)).sum := by
  induction parts generalizing items with
  | nil =>
    obtain rfl := Except.ok.inj read
    exact ⟨rfl, Nat.le_refl _⟩
  | cons part rest ih =>
    rw [List.mapM_cons] at read
    obtain ⟨item, first, next⟩ := Outcome.bind_ok.mp read
    obtain ⟨others, later, last⟩ := Outcome.bind_ok.mp next
    obtain rfl := Except.ok.inj last
    obtain ⟨length, sums⟩ := ih later wf.2
    have here := bounded part item first wf.1
    refine ⟨by rw [List.length_cons, List.length_cons, length], ?_⟩
    simp only [printItems, List.map_cons, List.sum_cons]
    omega

theorem printItems_length (items : List (AxExpr F)) : (printItems floatText items).length = items.length := by
  induction items with
  | nil => rfl
  | cons item rest ih => rw [printItems, List.length_cons, List.length_cons, ih]

theorem printFields_length (fields : List (String × AxExpr F)) :
    (printFields floatText fields).length = fields.length := by
  induction fields with
  | nil => rfl
  | cons field rest ih =>
    obtain ⟨key, value⟩ := field
    rw [printFields, List.length_cons, List.length_cons, ih]

/-- Items read from the pieces of a text, printed with commas between them. -/
theorem count_items (counted : Counted x) {f : List Char → Parsed (AxExpr F)}
    (bounded : Bounded floatText parseF64 x f) {text : List Char} {items : List (AxExpr F)}
    (read : (splitTopLevel text ',').mapM f = .ok items) (wf : WellFormedItems floatText parseF64 items) :
    (joined ',' (printItems floatText items)).count x ≤ text.count x := by
  obtain ⟨length, sums⟩ := mapM_bounded bounded read wf
  have pieces := count_pieces text x
  have blank : x ≠ ' ' := by rcases counted with rfl | rfl <;> decide
  rw [count_joined _ _ blank, printItems_length, length]
  omega

/-- What stands between the brackets of a text that starts and ends with them. -/
theorem count_between {input : List Char} {o c : Char} (head : input.head? = some o)
    (last : input.getLast? = some c) (x : Char) :
    (trimChars input.tail.dropLast).count x + [o].count x ≤ input.count x := by
  obtain ⟨rest, rfl⟩ := List.head?_eq_some_iff.mp head
  have inner := count_trim (o :: rest).tail.dropLast x
  have shorter := (List.dropLast_sublist rest).count_le x
  have whole : ([o] ++ rest).count x = [o].count x + rest.count x := List.count_append
  simp only [List.tail_cons] at inner ⊢
  rw [List.singleton_append] at whole
  omega

theorem parseListExpr_bounded (counted : Counted x) {f : List Char → Parsed (AxExpr F)}
    (bounded : Bounded floatText parseF64 x f) :
    Bounded floatText parseF64 x (parseListExpr line f) := by
  intro input expr read wf
  unfold parseListExpr at read
  split at read
  · cases read
  · next brackets =>
    obtain ⟨head, last⟩ := not_or.mp brackets
    have between := count_between (not_not.mp head) (not_not.mp last) x
    have close : (']' == x) = false := by rcases counted with rfl | rfl <;> decide
    have shape (items : List (AxExpr F)) : (print floatText (.list items)).count x =
        (joined ',' (printItems floatText items)).count x + ['['].count x := by
      rw [print, List.count_cons, List.count_append, List.count_singleton, List.count_singleton]
      simp [close]
    dsimp only at read
    split at read
    · obtain rfl := Except.ok.inj read
      rw [shape]
      have empty : (joined ',' (printItems floatText ([] : List (AxExpr F)))).count x = 0 := rfl
      omega
    · obtain ⟨items, inner, last⟩ := Outcome.bind_ok.mp read
      obtain rfl := Except.ok.inj last
      have guarded : Bounded floatText parseF64 x fun part =>
          if part.isEmpty then invalid line ("empty item in list literal " ++ shown input) else f part := by
        intro part item here valid
        dsimp only at here
        split at here
        · cases here
        · exact bounded part item here valid
      have inside := count_items counted guarded inner wf
      rw [shape]
      omega

def fieldText (floatText : AxFloat F → String) (field : String × AxExpr F) : List Char :=
  quoted field.1 ++ ':' :: ' ' :: print floatText field.2

theorem printFields_eq_map (fields : List (String × AxExpr F)) :
    printFields floatText fields = fields.map (fieldText floatText) := by
  induction fields with
  | nil => rfl
  | cons field rest ih =>
    obtain ⟨key, value⟩ := field
    rw [printFields, ih]
    rfl

theorem wellFormedFields_iff (fields : List (String × AxExpr F)) :
    WellFormedFields floatText parseF64 fields ↔
      ∀ field ∈ fields, WellFormed floatText parseF64 field.2 := by
  induction fields with
  | nil => simp [WellFormedFields]
  | cons field rest ih =>
    obtain ⟨key, value⟩ := field
    rw [WellFormedFields, ih, List.forall_mem_cons]

theorem absent_of_lookup {α : Type} {fields : List (String × α)} {name : String}
    (none : (Core.lookup fields name).isSome = false) : ∀ field ∈ fields, field.1 ≠ name := by
  intro field member same
  have missing : fields.find? (fun other => other.1 == name) = Option.none := by
    simpa [Core.lookup] using none
  have off := List.find?_eq_none.mp missing field member
  simp [same] at off

theorem insertField_perm {α : Type} {fields : List (String × α)} {name : String} (value : α)
    (absent : ∀ field ∈ fields, field.1 ≠ name) :
    (insertField fields name value).Perm ((name, value) :: fields) := by
  induction fields with
  | nil => exact List.Perm.refl _
  | cons field rest ih =>
    obtain ⟨other, old⟩ := field
    have different : name ≠ other := fun same => absent (other, old) List.mem_cons_self same.symm
    rw [insertField]
    split
    · exact List.Perm.refl _
    · have later := ih fun field member => absent field (List.mem_cons_of_mem _ member)
      exact (later.cons (other, old)).trans (List.Perm.swap _ _ _)

theorem count_fieldText (counted : Counted x) (field : String × AxExpr F) :
    (fieldText floatText field).count x = field.1.toList.count x + (print floatText field.2).count x := by
  have signs : (':' == x) = false ∧ (' ' == x) = false := by rcases counted with rfl | rfl <;> decide
  simp [fieldText, List.count_cons, count_quoted counted, signs]

def fieldsCount (floatText : AxFloat F → String) (x : Char) (fields : List (String × AxExpr F)) : Nat :=
  (fields.map fun field => (fieldText floatText field).count x).sum

/-- One part of an object: a field with at most the part's counted characters. -/
theorem parseField_bounded (counted : Counted x) {f : List Char → Parsed (AxExpr F)}
    (bounded : Bounded floatText parseF64 x f) {part before after : List Char} {key : String} {value : AxExpr F}
    (colon : findTopLevelObjectColon part = some (before, after))
    (name : parseKey line (trimChars before) = .ok key) (read : f (trimChars after.tail) = .ok value)
    (wf : WellFormed floatText parseF64 value) : (fieldText floatText (key, value)).count x ≤ part.count x := by
  have split := count_cut (findTop_split colon).1 (x := x)
  have keyCount : key.toList.count x ≤ (trimChars before).count x := by
    unfold parseKey at name
    obtain ⟨found, quotedKey, next⟩ := Outcome.bind_ok.mp name
    cases found with
    | some text =>
      obtain rfl := Except.ok.inj next
      exact count_parseQuotedString counted quotedKey
    | none =>
      dsimp only at next
      split at next
      · obtain rfl := Except.ok.inj next
        rw [String.toList_ofList]
      · cases next
  have valueCount := bounded _ value read wf
  have first := count_trim before x
  have second := count_trim after.tail x
  have tail := (List.tail_sublist after).count_le x
  rw [count_fieldText counted]
  change key.toList.count x + (print floatText value).count x ≤ part.count x
  omega

theorem parseFields_bounded (counted : Counted x) {f : List Char → Parsed (AxExpr F)}
    (bounded : Bounded floatText parseF64 x f) {comma : Bool} {parts : List (List Char)}
    {fields final : List (String × AxExpr F)} (read : parseFields line f comma parts fields = .ok final)
    (wf : ∀ field ∈ final, WellFormed floatText parseF64 field.2) :
    (∀ field ∈ fields, WellFormed floatText parseF64 field.2) ∧
      fieldsCount floatText x final ≤ fieldsCount floatText x fields + (parts.map (List.count x)).sum ∧
      final.length ≤ fields.length + parts.length ∧
      (comma = false → final.length = fields.length + parts.length) := by
  induction parts generalizing fields with
  | nil =>
    obtain rfl := Except.ok.inj read
    exact ⟨wf, Nat.le_add_right _ _, Nat.le_add_right _ _, fun _ => rfl⟩
  | cons part rest ih =>
    unfold parseFields at read
    split at read
    · next last =>
      obtain rfl := Except.ok.inj read
      refine ⟨wf, Nat.le_add_right _ _, Nat.le_add_right _ _, fun plain => ?_⟩
      simp [plain] at last
    · split at read
      · cases read
      · next before after colon =>
        dsimp only at read
        split at read
        · cases read
        · obtain ⟨key, name, next⟩ := Outcome.bind_ok.mp read
          split at next
          · cases next
          · next fresh =>
            obtain ⟨value, here, later⟩ := Outcome.bind_ok.mp next
            have perm := insertField_perm value (absent_of_lookup (by simpa using fresh))
            obtain ⟨inner, counts, most, exact_⟩ := ih later
            have valid : WellFormed floatText parseF64 value :=
              inner (key, value) (perm.mem_iff.mpr List.mem_cons_self)
            have one := parseField_bounded counted bounded colon name here valid
            have sums : fieldsCount floatText x (insertField fields key value) =
                (fieldText floatText (key, value)).count x + fieldsCount floatText x fields := by
              rw [fieldsCount, (perm.map _).sum_eq, List.map_cons, List.sum_cons]
              rfl
            have length : (insertField fields key value).length = fields.length + 1 := perm.length_eq
            refine ⟨fun field member => inner field (perm.mem_iff.mpr (List.mem_cons_of_mem _ member)), ?_, ?_, ?_⟩
            · rw [List.map_cons, List.sum_cons]
              omega
            · rw [List.length_cons]
              omega
            · intro plain
              have total := exact_ plain
              rw [List.length_cons]
              omega

theorem count_fields (counted : Counted x) (fields : List (String × AxExpr F)) :
    (joined ',' (printFields floatText fields)).count x =
      fieldsCount floatText x fields + if ',' = x then fields.length - 1 else 0 := by
  have blank : x ≠ ' ' := by rcases counted with rfl | rfl <;> decide
  rw [count_joined _ _ blank, printFields_length, printFields_eq_map, List.map_map]
  rfl

theorem parseObjectExpr_bounded (counted : Counted x) {f : List Char → Parsed (AxExpr F)}
    (bounded : Bounded floatText parseF64 x f) :
    Bounded floatText parseF64 x (parseObjectExpr line f) := by
  intro input expr read wf
  unfold parseObjectExpr at read
  split at read
  · cases read
  · next brackets =>
    obtain ⟨head, last⟩ := not_or.mp brackets
    have between := count_between (not_not.mp head) (not_not.mp last) x
    have curly : ('{' == x) = false ∧ ('}' == x) = false := by rcases counted with rfl | rfl <;> decide
    have shape (fields : List (String × AxExpr F)) : (print floatText (.object fields)).count x =
        (joined ',' (printFields floatText fields)).count x := by
      rw [print, List.count_cons, List.count_append, List.count_singleton]
      simp [curly]
    dsimp only at read
    split at read
    · obtain rfl := Except.ok.inj read
      rw [shape]
      exact Nat.zero_le _
    · obtain ⟨fields, inner, done⟩ := Outcome.bind_ok.mp read
      obtain rfl := Except.ok.inj done
      have valid := (wellFormedFields_iff fields).mp wf.2
      obtain ⟨_, counts, length, _⟩ := parseFields_bounded counted bounded inner valid
      have pieces := count_pieces (trimChars input.tail.dropLast) x
      have none : fieldsCount floatText x ([] : List (String × AxExpr F)) = 0 := rfl
      rw [List.length_nil] at length
      rw [shape, count_fields counted]
      by_cases same : ',' = x
      · rw [if_pos same] at pieces ⊢
        omega
      · rw [if_neg same] at pieces ⊢
        omega

theorem parseCall_bounded (counted : Counted x) {f : List Char → Parsed (AxExpr F)}
    (bounded : Bounded floatText parseF64 x f) {input path behind : List Char} {expr : AxExpr F}
    (read : parseCall line f input path behind = .ok expr) (wf : WellFormed floatText parseF64 expr) :
    (print floatText expr).count x ≤ behind.count x := by
  have shape (path : List String) (args : List (AxExpr F))
      (valid : ∀ name ∈ path, isValidObjectKey name.toList = true) : (print floatText (.call path args)).count x =
        (joined ',' (printItems floatText args)).count x := by
    have round : ('(' == x) = false ∧ (')' == x) = false := by rcases counted with rfl | rfl <;> decide
    simp [print, enclose, List.count_cons, count_dotted counted valid, round]
  have inside : (behind.tail.dropLast).count x ≤ behind.count x :=
    ((List.dropLast_sublist _).trans (List.tail_sublist _)).count_le x
  unfold parseCall at read
  dsimp only at read
  split at read
  · cases read
  · split at read
    · obtain rfl := Except.ok.inj read
      rw [shape _ _ wf.2.1]
      exact Nat.zero_le _
    · obtain ⟨args, inner, done⟩ := Outcome.bind_ok.mp read
      obtain rfl := Except.ok.inj done
      have trimmed : Bounded floatText parseF64 x fun part => f (trimChars part) := by
        intro part item here valid
        exact (bounded _ item here valid).trans (count_trim part x)
      have items := count_items counted trimmed inner wf.2.2
      rw [shape _ _ wf.2.1]
      omega

theorem parseMemberExpr_bounded (counted : Counted x) {f : List Char → Parsed (AxExpr F)}
    (bounded : Bounded floatText parseF64 x f) :
    Bounded floatText parseF64 x (parseMemberExpr line f) := by
  intro input expr read wf
  unfold parseMemberExpr at read
  split at read
  · cases read
  · next first cursor separator =>
    dsimp only at read
    split at read
    · cases read
    · obtain ⟨object, start, rest⟩ := Outcome.bind_ok.mp read
      obtain ⟨valid, same⟩ := parseMembers_bounded counted rest wf
      have here := bounded _ object start valid
      have split := count_cut (findTop_split separator).1 (x := x)
      have whole := count_trim input x
      have trimmed := count_trim first x
      omega

theorem parseForms_bounded (counted : Counted x) {f p : List Char → Parsed (AxExpr F)}
    (expr : Bounded floatText parseF64 x f) (primary : Bounded floatText parseF64 x p) :
    Bounded floatText parseF64 x (parseForms line f p) := by
  intro input result read wf
  unfold parseForms at read
  obtain ⟨quotedText, first, next⟩ := Outcome.bind_ok.mp read
  cases quotedText with
  | some value =>
    obtain rfl := Except.ok.inj next
    rw [print, count_quoted counted]
    exact count_parseQuotedString counted first
  | none =>
    have word (value : Bool) : (print floatText (.bool value : AxExpr F)).count x = 0 :=
      count_eq_zero_of (bool_chars value) (by simp [(counted_off counted).1])
    dsimp only at next
    split at next
    · obtain rfl := Except.ok.inj next
      rw [word]
      exact Nat.zero_le _
    · split at next
      · obtain rfl := Except.ok.inj next
        rw [word]
        exact Nat.zero_le _
      · split at next
        · next value _ =>
          obtain rfl := Except.ok.inj next
          have digit : x.isDigit = false ∧ x ≠ '-' := by rcases counted with rfl | rfl <;> decide
          have none : (print floatText (.number value : AxExpr F)).count x = 0 :=
            count_eq_zero_of (toString_chars value) (by simp [digit])
          omega
        · split at next
          · exact parseListExpr_bounded counted expr input result next wf
          · split at next
            · exact parseObjectExpr_bounded counted expr input result next wf
            · split at next
              · next path behind found =>
                split at found
                · have call := parseCall_bounded counted expr next wf
                  have split := count_cut (findTop_split found).1 (x := x)
                  omega
                · cases found
              · split at next
                · exact parseMemberExpr_bounded counted primary input result next wf
                · obtain rfl := Except.ok.inj next
                  have none := count_name counted wf.1
                  rw [print, none]
                  exact Nat.zero_le _

end Bounds

section Parser

theorem unwrapped_sublist (fuel : Nat) (current : List Char) :
    (trimWrappingParensFrom fuel current).Sublist current := by
  induction fuel generalizing current with
  | zero => exact List.Sublist.refl _
  | succ fuel ih =>
    unfold trimWrappingParensFrom
    split
    · have start : (trimChars current.tail.dropLast).Sublist current.tail.dropLast :=
        (trimEnd_front (trimStart _)).sublist.trans (List.dropWhile_suffix _).sublist
      exact (ih _).trans (start.trans ((List.dropLast_sublist _).trans (List.tail_sublist _)))
    · exact List.Sublist.refl _

theorem count_unwrapped (text : List Char) (x : Char) : (trimWrappingParens text).count x ≤ text.count x :=
  ((unwrapped_sublist _ _).count_le x).trans (count_trim text x)

/-- Every stage of the parser adds nothing. -/
theorem parser_bounded (counted : Counted x) (fuel : Nat) :
    Bounded floatText parseF64 x (parseExprFrom parseF64 line fuel) ∧
      (∀ minPrecedence, Bounded floatText parseF64 x fun text => parseBinaryFrom parseF64 line fuel text minPrecedence) ∧
      Bounded floatText parseF64 x (parseUnaryFrom parseF64 line fuel) ∧
      Bounded floatText parseF64 x (parsePrimaryFrom parseF64 line fuel) := by
  induction fuel with
  | zero =>
    refine ⟨?_, ?_, ?_, ?_⟩
    · intro text expr read
      cases read
    · intro minPrecedence text expr read
      cases read
    · intro text expr read
      cases read
    · intro text expr read
      cases read
  | succ fuel ih =>
    obtain ⟨expression, binary, unary, primary⟩ := ih
    refine ⟨?_, ?_, ?_, ?_⟩
    · intro text expr read wf
      have trimmed := count_trim text x
      unfold parseExprFrom at read
      dsimp only at read
      split at read
      · cases read
      · have dropped (n : Nat) : ((trimChars text).drop n).count x ≤ (trimChars text).count x :=
          (List.drop_sublist n _).count_le x
        split at read
        · have target := parseTarget_bounded counted (by decide) _ expr read wf
          exact target.trans ((dropped 5).trans trimmed)
        · split at read
          · have target := parseTarget_bounded counted (by decide) _ expr read wf
            exact target.trans ((dropped 7).trans trimmed)
          · split at read
            · next literal =>
              rw [numeric_bounded counted literal read wf]
              exact Nat.zero_le _
            · exact (binary 0 _ expr read wf).trans trimmed
    · intro minPrecedence text expr read wf
      dsimp only at read
      unfold parseBinaryFrom at read
      split at read
      · exact unary text expr read wf
      · next candidate found =>
        dsimp only at read
        split at read
        · cases read
        · obtain ⟨left, first, next⟩ := Outcome.bind_ok.mp read
          obtain ⟨right, second, last⟩ := Outcome.bind_ok.mp next
          obtain rfl := Except.ok.inj last
          have leftCount := binary _ _ left first wf.1
          have rightCount := binary _ _ right second wf.2
          have split := count_cut (findLowest_split found).1 (x := x)
          have before := count_trim candidate.before.reverse x
          have after := count_trim (candidate.after.drop (binaryOpLen candidate.op)) x
          have dropped := (List.drop_sublist (binaryOpLen candidate.op) candidate.after).count_le x
          have token : (opToken candidate.op).count x = 0 := by
            rcases counted with rfl | rfl <;> cases candidate.op <;> decide
          have blank : (' ' == x) = false := by rcases counted with rfl | rfl <;> decide
          have shape : print floatText (.binary candidate.op left right) = operand floatText left ++
              ' ' :: (opToken candidate.op ++ ' ' :: operand floatText right) := rfl
          have total : (print floatText (.binary candidate.op left right)).count x =
              (print floatText left).count x + (print floatText right).count x := by
            rw [shape]
            simp [List.count_cons, token, blank, count_operand counted]
          omega
    · intro text expr read wf
      have trimmed := count_trim text x
      have sign (op : AxUnaryOp) (inner : AxExpr F) :
          (print floatText (.unary op inner)).count x = (print floatText inner).count x := by
        have shape : print floatText (.unary op inner) = opSign op :: operand floatText inner := rfl
        have other : (opSign op == x) = false := by
          rcases counted with rfl | rfl <;> cases op <;> decide
        rw [shape, List.count_cons, count_operand counted, other]
        simp
      have rest := count_trim (trimChars text).tail x
      have tail := (List.tail_sublist (trimChars text)).count_le x
      unfold parseUnaryFrom at read
      dsimp only at read
      split at read
      · next literal =>
        rw [numeric_bounded counted literal read wf]
        exact Nat.zero_le _
      · split at read
        · split at read
          · exact (primary _ expr read wf).trans trimmed
          · obtain ⟨inner, here, rfl⟩ := Outcome.map_ok.mp read
            have bound := unary _ inner here wf
            rw [sign]
            omega
        · split at read
          · split at read
            · exact (primary _ expr read wf).trans trimmed
            · split at read
              · next value _ =>
                obtain rfl := Except.ok.inj read
                have digit : x.isDigit = false ∧ x ≠ '-' := by rcases counted with rfl | rfl <;> decide
                have none : (print floatText (.number value : AxExpr F)).count x = 0 :=
                  count_eq_zero_of (toString_chars value) (by simp [digit])
                omega
              · obtain ⟨inner, here, rfl⟩ := Outcome.map_ok.mp read
                have bound := unary _ inner here wf
                rw [sign]
                omega
          · exact (primary _ expr read wf).trans trimmed
    · intro text expr read wf
      have trimmed := count_trim text x
      unfold parsePrimaryFrom at read
      dsimp only at read
      split at read
      · have unwrapped := count_unwrapped (trimChars text) x
        exact (binary 0 _ expr read wf).trans (unwrapped.trans trimmed)
      · next unchanged =>
        have same : trimWrappingParens (trimChars text) = trimChars text := not_not.mp unchanged
        rw [same] at read
        obtain ⟨found, split, next⟩ := Outcome.bind_ok.mp read
        cases found with
        | none => exact (parseForms_bounded counted expression primary _ expr next wf).trans trimmed
        | some sources =>
          obtain ⟨objectSource, indexSource⟩ := sources
          obtain ⟨object, first, next⟩ := Outcome.bind_ok.mp next
          obtain ⟨index, second, last⟩ := Outcome.bind_ok.mp next
          obtain rfl := Except.ok.inj last
          have objectCount := primary _ object first wf.1
          have indexCount := expression _ index second wf.2
          obtain ⟨front, behind, whole, _, rfl, rfl⟩ := splitTrailingIndex_split split
          have parts := count_cut whole (x := x)
          have left := count_trim front x
          have right := count_trim behind.dropLast x
          have shorter := (List.dropLast_sublist behind).count_le x
          have again := count_trim (trimChars text) x
          have close : (']' == x) = false := by rcases counted with rfl | rfl <;> decide
          have shape : (print floatText (.index object index)).count x =
              (print floatText object).count x + (print floatText index).count x + ['['].count x := by
            have form : print floatText (.index object index) =
                operand floatText object ++ '[' :: (print floatText index ++ [']']) := rfl
            rw [form, List.count_append, count_operand counted, List.count_cons, List.count_append,
              List.count_singleton, List.count_singleton]
            simp [close]
            omega
          have bracket : ('[' :: behind).count x = ['['].count x + behind.count x := by
            rw [← List.singleton_append, List.count_append]
          omega

variable (floatText) in
theorem parseExpr_bounded (counted : Counted x) :
    Bounded floatText parseF64 x (parseExpr parseF64 line) := fun text =>
  (parser_bounded counted (4 * text.length + 4)).1 text

variable (floatText) in
theorem parsePrimaryExpr_bounded (counted : Counted x) :
    Bounded floatText parseF64 x (parsePrimaryExpr parseF64 line) := fun text =>
  (parser_bounded counted (4 * text.length + 1)).2.2.2 text

end Parser

end Axonyx.Core.Printer
