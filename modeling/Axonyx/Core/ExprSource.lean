import Axonyx.Core.ExprContent
import Axonyx.Outcome

/-! What the parser makes of a text it makes of parts of the text: the rules that give a
property of texts with their expressions, and what they say of the letters of a text. -/
namespace Axonyx.Core.Parser

open Nesting Text Printer

section Rules

/-- What can stand around the text of an expression without a word on it. -/
def isFiller (c : Char) : Bool := isWhitespace c || c == '(' || c == ')'

/-- The name behind the word of a data source. -/
def targetName (rest : List Char) : List Char :=
  let unquoted := fun quote (text : List Char) => (text.dropWhile (· == quote)).rdropWhile (· == quote)
  unquoted '\'' (unquoted '"' (trimChars rest))

/-- The names of a call's path. -/
def pathNames (path : List Char) : List (List Char) :=
  (((trimChars path).splitOn '.').map trimChars).filter fun segment => !segment.isEmpty

variable {F : Type} [Float64 F] (parseF64 : String → Option F) (line : Nat)

/-- A part of an object with the field it is read as. -/
def ReadsField (P : List Char → AxExpr F → Prop) (part : List Char) (field : String × AxExpr F) : Prop :=
  ∃ before after, trimChars part = before ++ ':' :: after ∧ parseKey line (trimChars before) = .ok field.1 ∧
    P after field.2

/-- One rule for each form: a property of the parts' texts with their expressions is one of the
whole text with its expression. -/
structure ReadingRules (P : List Char → AxExpr F → Prop) : Prop where
  around {front inner back : List Char} {expr : AxExpr F} (filler : ∀ c ∈ front ++ back, isFiller c = true) :
    P inner expr → P (front ++ inner ++ back) expr
  target {word : String} (rest : List Char) (source : word ∈ ["load", "action"]) :
    P (word.toList ++ ' ' :: rest) (.call [word] [.string (.ofList (targetName rest))])
  numeric {text : List Char} {expr : AxExpr F} : parseNumericLiteral parseF64 text line = some (.ok expr) → P text expr
  integer {text : List Char} {value : Int64} : parseI64 text = some value → P text (.number value)
  binary {before rest : List Char} {op : AxBinaryOp} {left right : AxExpr F}
    (operand : operatorHasLeftOperand before = true) : P before.reverse left → P rest right →
      P (before.reverse ++ opToken op ++ rest) (.binary op left right)
  unary {op : AxUnaryOp} {rest : List Char} {expr : AxExpr F} : P rest expr → P (opSign op :: rest) (.unary op expr)
  index {front inner : List Char} {object index : AxExpr F} : P front object → P inner index →
    P (front ++ '[' :: (inner ++ [']'])) (.index object index)
  string {text : List Char} {value : String} : parseQuotedString text line = .ok (some value) → P text (.string value)
  bool (value : Bool) : P (toString value).toList (.bool value)
  list {inner : List Char} {parts : List (List Char)} {items : List (AxExpr F)}
    (whole : trimChars inner = [','].intercalate parts) : List.Forall₂ P parts items →
      P ('[' :: (inner ++ [']'])) (.list items)
  object {inner : List Char} {parts rest : List (List Char)} {entries fields : List (String × AxExpr F)}
    (whole : trimChars inner = [','].intercalate (parts ++ rest)) (blank : ∀ part ∈ rest, trimChars part = [])
    (same : fields.Perm entries) : List.Forall₂ (ReadsField line P) parts entries →
      P ('{' :: (inner ++ ['}'])) (.object fields)
  call {path inner : List Char} {parts : List (List Char)} {args : List (AxExpr F)}
    (whole : trimChars inner = [','].intercalate parts ∨ inner = [','].intercalate parts) : List.Forall₂ P parts args →
      P (path ++ '(' :: (inner ++ [')'])) (.call ((pathNames path).map .ofList) args)
  member {front property : List Char} {object : AxExpr F} : P front object →
    P (front ++ '.' :: property) (.member object (.ofList (trimChars property)))
  optionalMember {front property : List Char} {object : AxExpr F} : P front object →
    P (front ++ '?' :: '.' :: property) (.optionalMember object (.ofList (trimChars property)))
  identifier (text : List Char) : P text (.identifier (.ofList text))

end Rules

section Reading

variable {F : Type} [Float64 F] {parseF64 : String → Option F} {line : Nat} {P : List Char → AxExpr F → Prop}

/-- White space is at the ends of what is trimmed. -/
theorem trimChars_split (text : List Char) : ∃ before after : List Char, text = before ++ trimChars text ++ after ∧
    (∀ c ∈ before, isWhitespace c = true) ∧ ∀ c ∈ after, isWhitespace c = true := by
  obtain ⟨before, after, whole, first, last⟩ := trim_split (.ofList text)
  rw [String.toList_ofList, trim, String.toList_ofList, String.toList_ofList] at whole
  exact ⟨before, after, by rw [List.append_assoc]; exact whole, first, last⟩

/-- A text that starts and ends with a bracket. -/
theorem bracketed {input : List Char} {o c : Char} (head : input.head? = some o) (last : input.getLast? = some c)
    (other : o ≠ c) : input = o :: (input.tail.dropLast ++ [c]) := by
  obtain ⟨rest, rfl⟩ := List.head?_eq_some_iff.mp head
  cases rest with
  | nil => exact absurd (Option.some.inj last) other
  | cons d more =>
    rw [List.getLast?_cons_cons] at last
    obtain ⟨front, shape⟩ := List.getLast?_eq_some_iff.mp last
    rw [List.tail_cons, shape, List.dropLast_concat]

/-- An operator's own text. -/
theorem binaryOpAt_token {before after : List Char} {op : AxBinaryOp} (found : binaryOpAt before after = some op) :
    opToken op ++ after.drop (binaryOpLen op) = after := by
  have starts : (opToken op).isPrefixOf after = true ∧ (opToken op).length = binaryOpLen op := by
    unfold binaryOpAt at found
    split at found
    · next word =>
      obtain rfl := Option.some.inj found
      exact ⟨(Bool.and_eq_true _ _).mp word |>.1, rfl⟩
    · obtain ⟨token, first, rfl⟩ := Option.map_eq_some_iff.mp found
      have here := List.find?_some first
      have texts : ∀ token ∈ operatorTokens, opToken token.2 = token.1.toList ∧
          (opToken token.2).length = binaryOpLen token.2 := by decide
      obtain ⟨same, length⟩ := texts token (List.mem_of_find?_eq_some first)
      exact ⟨by rw [same]; exact here, length⟩
  obtain ⟨rest, shape⟩ := List.isPrefixOf_iff_prefix.mp starts.1
  rw [← shape, ← starts.2, List.drop_left]

theorem findLowest_operand {input : List Char} {minPrecedence : Nat} {candidate : Candidate}
    (found : findLowestPrecedenceOperator input minPrecedence = some candidate) :
    candidate.before.reverse ++ (opToken candidate.op ++ candidate.after.drop (binaryOpLen candidate.op)) = input ∧
      candidate ∈ candidates input ∧ operatorHasLeftOperand candidate.before = true := by
  have member : candidate ∈ candidates input := by
    rcases foldl_lower_mem found with here | impossible
    · exact here
    · cases impossible
  obtain ⟨whole, _, token⟩ := findLowest_split found
  refine ⟨by rw [binaryOpAt_token token, whole], member, ?_⟩
  obtain ⟨place, _, here⟩ := List.mem_filterMap.mp member
  unfold candidateAt at here
  split at here
  · split at here
    · next operand =>
      obtain rfl := Option.some.inj here
      exact operand
    · cases here
  · cases here

/-- The brackets of an index end the text. -/
theorem splitTrailingIndex_parts {input object index : List Char}
    (found : splitTrailingIndex line input = .ok (some (object, index))) :
    ∃ front inner : List Char, front ++ '[' :: (inner ++ [']']) = trimChars input ∧ object = trimChars front ∧
      index = trimChars inner := by
  obtain ⟨front, behind, whole, _, rfl, rfl⟩ := splitTrailingIndex_split found
  have last : (trimChars input).getLast? = some ']' := by
    unfold splitTrailingIndex at found
    dsimp only at found
    split at found
    · cases found
    · next ends => exact not_not.mp ends
  rw [← whole, List.getLast?_append, Option.or_of_isSome (by simp)] at last
  cases behind with
  | nil => cases last
  | cons c rest =>
    rw [List.getLast?_cons_cons] at last
    obtain ⟨inner, shape⟩ := List.getLast?_eq_some_iff.mp last
    refine ⟨front, inner, by rw [← whole, shape], rfl, ?_⟩
    rw [shape, List.dropLast_concat]

variable (rules : ReadingRules parseF64 line P)
include rules

theorem ReadingRules.trimmed {text : List Char} {expr : AxExpr F} (inner : P (trimChars text) expr) : P text expr := by
  obtain ⟨before, after, whole, first, last⟩ := trimChars_split text
  rw [whole]
  apply rules.around _ inner
  intro c member
  rcases List.mem_append.mp member with early | late
  · simp [isFiller, first c early]
  · simp [isFiller, last c late]

theorem ReadingRules.unwrapped {text : List Char} {expr : AxExpr F} {fuel : Nat}
    (inner : P (trimWrappingParensFrom fuel text) expr) : P text expr := by
  induction fuel generalizing text with
  | zero => exact inner
  | succ fuel ih =>
    unfold trimWrappingParensFrom at inner
    split at inner
    · next wrapped =>
      obtain ⟨rest, rfl⟩ := List.head?_eq_some_iff.mp wrapped.1
      have middle := rules.trimmed (ih inner)
      cases rest with
      | nil => cases wrapped.2.1
      | cons c more =>
        have last : (c :: more).getLast? = some ')' := by
          rw [← wrapped.2.1, List.getLast?_cons_cons]
        obtain ⟨front, shape⟩ := List.getLast?_eq_some_iff.mp last
        rw [List.tail_cons, shape, List.dropLast_concat] at middle
        rw [shape]
        exact @ReadingRules.around F _ parseF64 line P rules ['('] front [')'] expr (by decide) middle
    · exact inner

theorem ReadingRules.pieces {f : List Char → Parsed (AxExpr F)}
    (each : ∀ text expr, f text = .ok expr → P text expr) {text : List Char} {items : List (AxExpr F)}
    (read : (splitTopLevel text ',').mapM f = .ok items) :
    ∃ parts, text = [','].intercalate parts ∧ List.Forall₂ P parts items := by
  refine ⟨_, (@intercalate_pieces (escapeBlind ['(', '[', '{'] [')', ']', '}']) ',' start text).symm, ?_⟩
  have all := Outcome.related_of_mapM read
  rw [splitTopLevel, List.forall₂_map_left_iff] at all
  exact all.imp fun part item here => rules.trimmed (each _ item here)

theorem ReadingRules.listExpr {f : List Char → Parsed (AxExpr F)}
    (each : ∀ text expr, f text = .ok expr → P text expr) {input : List Char} {expr : AxExpr F}
    (read : parseListExpr line f input = .ok expr) : P input expr := by
  unfold parseListExpr at read
  split at read
  · cases read
  · next brackets =>
    obtain ⟨head, last⟩ := not_or.mp brackets
    rw [bracketed (not_not.mp head) (not_not.mp last) (by decide)]
    dsimp only at read
    split at read
    · next empty =>
      obtain rfl := Except.ok.inj read
      exact rules.list (show _ = [','].intercalate [] from List.isEmpty_iff.mp empty) .nil
    · obtain ⟨items, inner, done⟩ := Outcome.bind_ok.mp read
      obtain rfl := Except.ok.inj done
      have guarded : ∀ part item, (if part.isEmpty then
          invalid line ("empty item in list literal " ++ shown input) else f part) = .ok item → P part item := by
        intro part item here
        split at here
        · cases here
        · exact each part item here
      obtain ⟨parts, whole, all⟩ := rules.pieces guarded inner
      exact rules.list whole all

theorem ReadingRules.fields {f : List Char → Parsed (AxExpr F)} (each : ∀ text expr, f text = .ok expr → P text expr)
    {comma : Bool} {parts : List (List Char)} {fields final : List (String × AxExpr F)}
    (read : parseFields line f comma (parts.map trimChars) fields = .ok final) :
    ∃ front rest entries, parts = front ++ rest ∧ (∀ part ∈ rest, trimChars part = []) ∧
      List.Forall₂ (ReadsField line P) front entries ∧ final.Perm (fields ++ entries) := by
  induction parts generalizing fields with
  | nil =>
    obtain rfl := Except.ok.inj read
    exact ⟨[], [], [], rfl, by simp, .nil, by simp⟩
  | cons part others ih =>
    rw [List.map_cons] at read
    unfold parseFields at read
    split at read
    · next last =>
      obtain rfl := Except.ok.inj read
      simp only [Bool.and_eq_true, List.isEmpty_iff, List.map_eq_nil_iff] at last
      obtain ⟨⟨blank, rfl⟩, _⟩ := last
      exact ⟨[], [part], [], rfl, by simpa using blank, .nil, by simp⟩
    · split at read
      · cases read
      · next before after colon =>
        dsimp only at read
        split at read
        · cases read
        · obtain ⟨key, name, next⟩ := Outcome.bind_ok.mp read
          split at next
          · cases next
          · next fresh =>
            obtain ⟨value, here, later⟩ := Outcome.bind_ok.mp next
            obtain ⟨front, rest, entries, rfl, blank, all, perm⟩ := ih later
            obtain ⟨whole, mark, _⟩ := findTop_split colon
            obtain ⟨behind, rfl⟩ := List.head?_eq_some_iff.mp (eq_of_beq mark)
            have field : ReadsField line P part (key, value) :=
              ⟨before, behind, whole.symm, name, rules.trimmed (each _ value here)⟩
            have inserted := insertField_perm value (absent_of_lookup (by simpa using fresh))
            refine ⟨part :: front, rest, (key, value) :: entries, rfl, blank, .cons field all, perm.trans ?_⟩
            exact (inserted.append_right entries).trans (List.perm_middle.symm)

theorem ReadingRules.objectExpr {f : List Char → Parsed (AxExpr F)}
    (each : ∀ text expr, f text = .ok expr → P text expr) {input : List Char} {expr : AxExpr F}
    (read : parseObjectExpr line f input = .ok expr) : P input expr := by
  unfold parseObjectExpr at read
  split at read
  · cases read
  · next brackets =>
    obtain ⟨head, last⟩ := not_or.mp brackets
    rw [bracketed (not_not.mp head) (not_not.mp last) (by decide)]
    dsimp only at read
    split at read
    · next empty =>
      obtain rfl := Except.ok.inj read
      refine rules.object (show _ = [','].intercalate ([] ++ []) from List.isEmpty_iff.mp empty) (by simp) ?_ .nil
      exact List.Perm.refl _
    · obtain ⟨fields, inner, done⟩ := Outcome.bind_ok.mp read
      obtain rfl := Except.ok.inj done
      obtain ⟨front, rest, entries, shape, blank, all, perm⟩ := rules.fields each inner
      have whole := @intercalate_pieces (escapeBlind ['(', '[', '{'] [')', ']', '}']) ',' start
        (trimChars input.tail.dropLast)
      rw [shape] at whole
      exact rules.object whole.symm blank perm all

theorem ReadingRules.callExpr {f : List Char → Parsed (AxExpr F)}
    (each : ∀ text expr, f text = .ok expr → P text expr) {input path behind : List Char} {expr : AxExpr F}
    (whole : path ++ behind = input) (opens : behind.head? = some '(') (last : input.getLast? = some ')')
    (read : parseCall line f input path behind = .ok expr) : P input expr := by
  have ends : behind.getLast? = some ')' := by
    rw [← whole, List.getLast?_append] at last
    cases shape : behind.getLast? with
    | none =>
      rw [List.getLast?_eq_none_iff.mp shape] at opens
      cases opens
    | some c => simpa [shape] using last
  rw [← whole, bracketed opens ends (by decide)]
  unfold parseCall at read
  dsimp only at read
  split at read
  · cases read
  · split at read
    · next empty =>
      obtain rfl := Except.ok.inj read
      exact rules.call (.inl (show _ = [','].intercalate [] from List.isEmpty_iff.mp empty)) .nil
    · obtain ⟨args, inner, done⟩ := Outcome.bind_ok.mp read
      obtain rfl := Except.ok.inj done
      have trimmed : ∀ part item, f (trimChars part) = .ok item → P part item :=
        fun part item here => rules.trimmed (each _ item here)
      obtain ⟨parts, shape, all⟩ := rules.pieces trimmed inner
      exact rules.call (.inr shape) all

theorem ReadingRules.members {input front cursor : List Char} {fuel : Nat} {object expr : AxExpr F}
    (start : P front object) (read : parseMembers line input fuel object cursor = .ok expr) :
    P (front ++ cursor) expr := by
  induction fuel generalizing front cursor object with
  | zero =>
    cases cursor with
    | nil =>
      obtain rfl := Except.ok.inj read
      rwa [List.append_nil]
    | cons c rest => cases read
  | succ fuel ih =>
    cases cursor with
    | nil =>
      obtain rfl := Except.ok.inj read
      rwa [List.append_nil]
    | cons c rest =>
      unfold parseMembers at read
      dsimp only at read
      have parts (cursor : List Char) : ∃ property rest, property ++ rest = cursor ∧
          (findTopLevelMemberSeparator cursor).getD (cursor, []) = (property, rest) := by
        cases found : findTopLevelMemberSeparator cursor with
        | none => exact ⟨cursor, [], List.append_nil cursor, rfl⟩
        | some place =>
          obtain ⟨property, rest⟩ := place
          exact ⟨property, rest, (findTop_split found).1, rfl⟩
      split at read
      · cases read
      · next optional behind separated =>
        obtain ⟨property, more, whole, found⟩ := parts behind
        rw [found] at read
        split at read
        · cases read
        · split at separated
          · next question =>
            obtain ⟨rfl, rfl⟩ := Prod.mk.inj (Option.some.inj separated)
            obtain ⟨tail, shape⟩ := List.isPrefixOf_iff_prefix.mp question
            have cursor : c :: rest = '?' :: '.' :: (property ++ more) := by
              rw [whole, ← shape]
              rfl
            rw [cursor]
            have next := ih (rules.optionalMember start) read
            simpa using next
          · split at separated
            · next dot =>
              obtain ⟨rfl, rfl⟩ := Prod.mk.inj (Option.some.inj separated)
              obtain rfl : c = '.' := Option.some.inj dot
              have next := ih (rules.member start) read
              rw [List.tail_cons] at whole
              rw [← whole]
              simpa using next
            · cases separated

theorem ReadingRules.memberExpr {f : List Char → Parsed (AxExpr F)}
    (each : ∀ text expr, f text = .ok expr → P text expr) {input : List Char} {expr : AxExpr F}
    (read : parseMemberExpr line f input = .ok expr) : P input expr := by
  apply rules.trimmed
  unfold parseMemberExpr at read
  split at read
  · cases read
  · next first cursor separator =>
    dsimp only at read
    split at read
    · cases read
    · obtain ⟨object, front, rest⟩ := Outcome.bind_ok.mp read
      rw [← (findTop_split separator).1]
      exact rules.members (rules.trimmed (each _ object front)) rest

theorem ReadingRules.forms {f p : List Char → Parsed (AxExpr F)} (expression : ∀ text expr, f text = .ok expr → P text expr)
    (primary : ∀ text expr, p text = .ok expr → P text expr) {input : List Char} {result : AxExpr F}
    (read : parseForms line f p input = .ok result) : P input result := by
  unfold parseForms at read
  obtain ⟨quotedText, first, next⟩ := Outcome.bind_ok.mp read
  cases quotedText with
  | some value =>
    obtain rfl := Except.ok.inj next
    exact rules.string first
  | none =>
    dsimp only at next
    split at next
    · next same =>
      obtain rfl := Except.ok.inj next
      rw [same]
      exact rules.bool true
    · split at next
      · next same =>
        obtain rfl := Except.ok.inj next
        rw [same]
        exact rules.bool false
      · split at next
        · next value number =>
          obtain rfl := Except.ok.inj next
          exact rules.integer number
        · split at next
          · exact rules.listExpr expression next
          · split at next
            · exact rules.objectExpr expression next
            · split at next
              · next path behind found =>
                split at found
                · next last =>
                  obtain ⟨whole, opens, _⟩ := findTop_split found
                  exact rules.callExpr expression whole (eq_of_beq opens) last next
                · cases found
              · split at next
                · exact rules.memberExpr primary next
                · obtain rfl := Except.ok.inj next
                  exact rules.identifier input

theorem ReadingRules.targetExpr {word : String} {text : List Char} {expr : AxExpr F} (source : word ∈ ["load", "action"])
    (starts : (word.toList ++ [' ']).isPrefixOf text = true)
    (read : parseTarget line word (text.drop (word.length + 1)) = .ok expr) : P text expr := by
  obtain ⟨rest, rfl⟩ := List.isPrefixOf_iff_prefix.mp starts
  have dropped : (word.toList ++ [' '] ++ rest).drop (word.length + 1) = rest := by
    apply List.drop_left'
    simp [String.length_toList]
  rw [dropped] at read
  unfold parseTarget at read
  dsimp only at read
  split at read
  · cases read
  · obtain rfl := Except.ok.inj read
    rw [List.append_assoc]
    exact rules.target rest source

/-- What has the rules of the forms holds of every text with the expression it is read as. -/
theorem ReadingRules.parser (fuel : Nat) :
    (∀ text expr, parseExprFrom parseF64 line fuel text = .ok expr → P text expr) ∧
      (∀ minPrecedence text expr, parseBinaryFrom parseF64 line fuel text minPrecedence = .ok expr → P text expr) ∧
      (∀ text expr, parseUnaryFrom parseF64 line fuel text = .ok expr → P text expr) ∧
      ∀ text expr, parsePrimaryFrom parseF64 line fuel text = .ok expr → P text expr := by
  induction fuel with
  | zero => exact ⟨fun _ _ read => (nomatch read), fun _ _ _ read => (nomatch read), fun _ _ read => (nomatch read),
      fun _ _ read => nomatch read⟩
  | succ fuel ih =>
    obtain ⟨expression, binary, unary, primary⟩ := ih
    refine ⟨?_, ?_, ?_, ?_⟩
    · intro text expr read
      apply rules.trimmed
      unfold parseExprFrom at read
      dsimp only at read
      split at read
      · cases read
      · split at read
        · next load => exact @ReadingRules.targetExpr F _ parseF64 line P rules "load" _ expr (by simp) load read
        · split at read
          · next action => exact @ReadingRules.targetExpr F _ parseF64 line P rules "action" _ expr (by simp) action read
          · split at read
            · next literal =>
              subst read
              exact rules.numeric literal
            · exact binary 0 _ expr read
    · intro minPrecedence text expr read
      unfold parseBinaryFrom at read
      split at read
      · exact unary text expr read
      · next candidate found =>
        dsimp only at read
        split at read
        · cases read
        · obtain ⟨left, first, next⟩ := Outcome.bind_ok.mp read
          obtain ⟨right, second, last⟩ := Outcome.bind_ok.mp next
          obtain rfl := Except.ok.inj last
          obtain ⟨whole, token, operand⟩ := findLowest_operand found
          rw [← whole, ← List.append_assoc]
          exact rules.binary operand (rules.trimmed (binary _ _ left first)) (rules.trimmed (binary _ _ right second))
    · intro text expr read
      apply rules.trimmed
      unfold parseUnaryFrom at read
      dsimp only at read
      split at read
      · next literal =>
        subst read
        exact rules.numeric literal
      · split at read
        · next sign =>
          split at read
          · exact primary _ expr read
          · obtain ⟨inner, here, rfl⟩ := Outcome.map_ok.mp read
            obtain ⟨rest, shape⟩ := List.head?_eq_some_iff.mp sign
            rw [shape] at here ⊢
            exact @ReadingRules.unary F _ parseF64 line P rules .not rest inner (rules.trimmed (unary _ inner here))
        · split at read
          · next sign =>
            split at read
            · exact primary _ expr read
            · split at read
              · next value number =>
                obtain rfl := Except.ok.inj read
                exact rules.integer number
              · obtain ⟨inner, here, rfl⟩ := Outcome.map_ok.mp read
                obtain ⟨rest, shape⟩ := List.head?_eq_some_iff.mp sign
                rw [shape] at here ⊢
                exact @ReadingRules.unary F _ parseF64 line P rules .neg rest inner (rules.trimmed (unary _ inner here))
          · exact primary _ expr read
    · intro text expr read
      apply rules.trimmed
      unfold parsePrimaryFrom at read
      dsimp only at read
      split at read
      · exact rules.trimmed (rules.unwrapped (binary 0 _ expr read))
      · next unchanged =>
        rw [not_not.mp unchanged] at read
        obtain ⟨found, split, next⟩ := Outcome.bind_ok.mp read
        cases found with
        | none => exact rules.forms expression primary next
        | some sources =>
          obtain ⟨objectSource, indexSource⟩ := sources
          obtain ⟨object, first, next⟩ := Outcome.bind_ok.mp next
          obtain ⟨index, second, last⟩ := Outcome.bind_ok.mp next
          obtain rfl := Except.ok.inj last
          obtain ⟨front, inner, whole, rfl, rfl⟩ := splitTrailingIndex_parts split
          apply rules.trimmed
          rw [← whole]
          exact rules.index (rules.trimmed (primary _ object first)) (rules.trimmed (expression _ index second))

/-- The same for the parser with no bound on its depth. -/
theorem ReadingRules.parseExpr {text : List Char} {expr : AxExpr F}
    (read : Parser.parseExpr parseF64 line text = .ok expr) : P text expr :=
  (rules.parser _).1 text expr read

theorem ReadingRules.parseBinaryExpr {text : List Char} {minPrecedence : Nat} {expr : AxExpr F}
    (read : Parser.parseBinaryExpr parseF64 line text minPrecedence = .ok expr) : P text expr :=
  (rules.parser _).2.1 minPrecedence text expr read

end Reading

end Axonyx.Core.Parser
