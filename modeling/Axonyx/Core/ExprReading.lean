import Axonyx.Core.ExprParser

/-! Every text has an expression or an error: the parser goes on with shorter texts only, so
that its result does not depend on how deep it may call. -/
namespace Axonyx.Core.Parser

open Nesting Text

section Cuts

theorem trimChars_length (text : List Char) : (trimChars text).length ≤ text.length := trim_length text

theorem findTop_split {rules : Rules} {here : List Char → Bool} {input before after : List Char}
    (found : findTop rules here input = some (before, after)) :
    before ++ after = input ∧ here after = true ∧ ∃ c rest, after = c :: rest ∧ rules.plain c = true := by
  obtain ⟨place, first, same⟩ := Option.map_eq_some_iff.mp found
  obtain ⟨rfl, rfl⟩ := Prod.mk.inj same
  obtain ⟨whole, shape⟩ := mem_tops (List.mem_of_find?_eq_some first)
  exact ⟨whole, List.find?_some (p := fun place : List Char × List Char => here place.2) first, shape⟩

theorem findTop_length {rules : Rules} {here : List Char → Bool} {input before after : List Char}
    (found : findTop rules here input = some (before, after)) :
    before.length + after.length = input.length ∧ 0 < after.length := by
  obtain ⟨whole, _, c, rest, shape, _⟩ := findTop_split found
  rw [← whole, List.length_append, shape]
  simp

theorem mem_splitTopLevel_length {input part : List Char} {delimiter : Char}
    (member : part ∈ splitTopLevel input delimiter) : part.length ≤ input.length := by
  obtain ⟨piece, inside, rfl⟩ := List.mem_map.mp member
  have whole := @intercalate_pieces (escapeBlind ['(', '[', '{'] [')', ']', '}']) delimiter start input
  have shorter := (sublist_intercalate [delimiter] inside).length_le
  rw [whole] at shorter
  exact (trimChars_length piece).trans shorter

theorem foldl_lower_mem {minPrecedence : Nat} {list : List Candidate} {result : Option Candidate}
    {candidate : Candidate} (chosen : list.foldl (lower minPrecedence) result = some candidate) :
    candidate ∈ list ∨ result = some candidate := by
  induction list generalizing result with
  | nil => exact .inr chosen
  | cons first rest ih =>
    rw [List.foldl_cons] at chosen
    rcases ih chosen with later | here
    · exact .inl (List.mem_cons_of_mem first later)
    · unfold lower at here
      split at here
      · exact .inr here
      · split at here
        · exact .inl (Option.some.inj here ▸ List.mem_cons_self)
        · exact .inr here

theorem binaryOpLen_pos (op : AxBinaryOp) : 0 < binaryOpLen op := by cases op <;> decide

/-- The operator that is chosen cuts the text. -/
theorem findLowest_split {input : List Char} {minPrecedence : Nat} {candidate : Candidate}
    (found : findLowestPrecedenceOperator input minPrecedence = some candidate) :
    candidate.before.reverse ++ candidate.after = input ∧ candidate.after ≠ [] ∧
      binaryOpAt candidate.before candidate.after = some candidate.op := by
  rcases foldl_lower_mem found with member | impossible
  · obtain ⟨place, inside, here⟩ := List.mem_filterMap.mp member
    unfold candidateAt at here
    split at here
    · next op token =>
      split at here
      · obtain rfl := Option.some.inj here
        obtain ⟨whole, c, rest, shape, _⟩ := mem_tops inside
        exact ⟨whole, by simp [shape], token⟩
      · cases here
    · cases here
  · cases impossible

theorem findLowest_length {input : List Char} {minPrecedence : Nat} {candidate : Candidate}
    (found : findLowestPrecedenceOperator input minPrecedence = some candidate) :
    (trimChars candidate.before.reverse).length < input.length ∧
      (trimChars (candidate.after.drop (binaryOpLen candidate.op))).length < input.length := by
  obtain ⟨whole, present, _⟩ := findLowest_split found
  have left := trimChars_length candidate.before.reverse
  have right := trimChars_length (candidate.after.drop (binaryOpLen candidate.op))
  have more := List.length_pos_iff.mpr present
  have step := binaryOpLen_pos candidate.op
  rw [List.length_drop] at right
  rw [← whole, List.length_append]
  omega

theorem trimWrappingParensFrom_length (fuel : Nat) (current : List Char) :
    (trimWrappingParensFrom fuel current).length ≤ current.length ∧
      (trimWrappingParensFrom fuel current ≠ current →
        (trimWrappingParensFrom fuel current).length < current.length) := by
  induction fuel generalizing current with
  | zero => exact ⟨le_refl _, fun other => absurd rfl other⟩
  | succ fuel ih =>
    unfold trimWrappingParensFrom
    split
    · next wrapped =>
      obtain ⟨rest, rfl⟩ := List.head?_eq_some_iff.mp wrapped.1
      have trimmed := trimChars_length ('(' :: rest).tail.dropLast
      have step := (ih (trimChars ('(' :: rest).tail.dropLast)).1
      have shorter : ('(' :: rest).tail.dropLast.length < ('(' :: rest).length := by
        rw [List.tail_cons, List.length_dropLast, List.length_cons]
        omega
      exact ⟨by omega, fun _ => by omega⟩
    · exact ⟨le_refl _, fun other => absurd rfl other⟩

theorem trimWrappingParens_length {input : List Char}
    (different : trimWrappingParens (trimChars input) ≠ trimChars input) :
    (trimWrappingParens (trimChars input)).length < (trimChars input).length := by
  have same : trimChars (trimChars input) = trimChars input := trim_trim_chars input
  have step := (trimWrappingParensFrom_length (trimChars input).length (trimChars input)).2
  unfold trimWrappingParens at different ⊢
  rw [same] at different ⊢
  exact step different

/-- An index is cut off at an opening bracket. -/
theorem splitTrailingIndex_split {line : Nat} {input object index : List Char}
    (found : splitTrailingIndex line input = .ok (some (object, index))) :
    ∃ front behind : List Char, front ++ '[' :: behind = trimChars input ∧
      cut (escapeAware [']'] ['[']) start [] (trimChars input).reverse = some (behind, front.reverse) ∧
        object = trimChars front ∧ index = trimChars behind.dropLast := by
  unfold splitTrailingIndex at found
  dsimp only at found
  split at found
  · cases found
  · split at found
    · cases found
    · split at found
      · cases found
      · next behind rest cutAt =>
        split at found
        · cases found
        · obtain ⟨rfl, rfl⟩ := Prod.mk.inj (Option.some.inj (Except.ok.inj found))
          obtain ⟨c, member, split⟩ := cut_split cutAt
          obtain rfl : c = '[' := List.mem_singleton.mp member
          refine ⟨rest.reverse, behind, ?_, by rw [List.reverse_reverse]; exact cutAt, rfl, rfl⟩
          have turned := congrArg List.reverse split
          simpa using turned

theorem splitTrailingIndex_length {line : Nat} {input object index : List Char}
    (found : splitTrailingIndex line input = .ok (some (object, index))) :
    object.length < input.length ∧ index.length < input.length := by
  obtain ⟨front, behind, whole, _, rfl, rfl⟩ := splitTrailingIndex_split found
  have trimmed := trimChars_length input
  have left := trimChars_length front
  have right := trimChars_length behind.dropLast
  rw [← whole, List.length_append, List.length_cons] at trimmed
  rw [List.length_dropLast] at right
  omega

end Cuts

section Settling

variable {α β : Type}

/-- The same result twice, and one that the text itself has. -/
def Settled (first second : Parsed α) : Prop := first = second ∧ first ≠ .error .deep

theorem settled_ok (value : α) : Settled (.ok value : Parsed α) (.ok value) := ⟨rfl, by simp⟩

theorem settled_invalid (line : Nat) (message : String) :
    Settled (invalid line message : Parsed α) (invalid line message) := ⟨rfl, by simp [invalid]⟩

theorem Settled.bind {a b : Parsed α} {f g : α → Parsed β} (first : Settled a b)
    (later : ∀ value, a = .ok value → Settled (f value) (g value)) : Settled (a >>= f) (b >>= g) := by
  obtain ⟨rfl, shallow⟩ := first
  cases a with
  | error failure =>
    refine ⟨rfl, fun deep => shallow ?_⟩
    cases deep
    rfl
  | ok value => exact later value rfl

theorem Settled.map {a b : Parsed α} (first : Settled a b) (f : α → β) :
    Settled (a.map f) (b.map f) := by
  obtain ⟨rfl, shallow⟩ := first
  cases a with
  | error failure =>
    refine ⟨rfl, fun deep => shallow ?_⟩
    cases deep
    rfl
  | ok value => exact settled_ok (f value)

theorem Settled.mapM {ι : Type} {f g : ι → Parsed α} {items : List ι}
    (each : ∀ item ∈ items, Settled (f item) (g item)) : Settled (items.mapM f) (items.mapM g) := by
  induction items with
  | nil => exact settled_ok []
  | cons item rest ih =>
    rw [List.mapM_cons, List.mapM_cons]
    apply (each item List.mem_cons_self).bind
    intro value _
    apply (ih fun other member => each other (List.mem_cons_of_mem item member)).bind
    intro values _
    exact settled_ok (value :: values)

/-- What does not call the parser again is settled. -/
theorem settled_refl {result : Parsed α} (shallow : result ≠ .error .deep) : Settled result result :=
  ⟨rfl, shallow⟩

end Settling

section Forms

variable {F : Type} [Float64 F] {parseF64 : String → Option F} {line : Nat}

/-- Two parsers agree on all texts shorter than a bound. -/
def SameBelow (bound : Nat) (f g : List Char → Parsed (AxExpr F)) : Prop :=
  ∀ part : List Char, part.length < bound → Settled (f part) (g part)

theorem parseQuotedString_shallow (input : List Char) : parseQuotedString input line ≠ .error .deep := by
  unfold parseQuotedString
  split
  · simp
  · split
    · simp
    · split
      · simp [invalid]
      · split <;> simp [invalid]

theorem splitTrailingIndex_shallow (input : List Char) : splitTrailingIndex line input ≠ .error .deep := by
  unfold splitTrailingIndex
  dsimp only
  split
  · simp
  · split
    · simp
    · split
      · simp
      · split <;> simp [invalid]

theorem parseTarget_settled (word : String) (rest : List Char) :
    Settled (parseTarget line word rest : Parsed (AxExpr F)) (parseTarget line word rest) := by
  unfold parseTarget
  dsimp only
  split
  · exact settled_invalid _ _
  · exact settled_ok _

theorem parseNumericLiteral_settled {input : List Char} {number : Parsed (AxExpr F)}
    (literal : parseNumericLiteral parseF64 input line = some number) : Settled number number := by
  unfold parseNumericLiteral at literal
  dsimp only at literal
  generalize (if input.head? = some '-' then input.tail else input) = unsigned at literal
  split at literal
  · cases literal
  · split at literal
    · obtain rfl := Option.some.inj literal
      split
      · exact settled_ok _
      · exact settled_invalid _ _
    · split at literal
      · split at literal
        · split at literal
          · exact Option.some.inj literal ▸ settled_invalid _ _
          · split at literal
            · exact Option.some.inj literal ▸ settled_ok _
            · exact Option.some.inj literal ▸ settled_invalid _ _
        · exact Option.some.inj literal ▸ settled_invalid _ _
      · cases literal

theorem parseMembers_shallow (input : List Char) {fuel : Nat} (expr : AxExpr F) {cursor : List Char}
    (enough : cursor.length ≤ fuel) : parseMembers line input fuel expr cursor ≠ .error .deep := by
  induction fuel generalizing expr cursor with
  | zero =>
    obtain rfl : cursor = [] := List.length_eq_zero_iff.mp (by omega)
    simp [parseMembers]
  | succ fuel ih =>
    cases cursor with
    | nil => simp [parseMembers]
    | cons c rest =>
      unfold parseMembers
      dsimp only
      split
      · simp [invalid]
      · next optional next separated =>
        have shorter : next.length ≤ fuel := by
          split at separated
          · obtain ⟨_, rfl⟩ := Prod.mk.inj (Option.some.inj separated)
            simp only [List.length_drop, List.length_cons] at enough ⊢
            omega
          · split at separated
            · obtain ⟨_, rfl⟩ := Prod.mk.inj (Option.some.inj separated)
              simpa using enough
            · cases separated
        have left : ((findTopLevelMemberSeparator next).getD (next, [])).2.length ≤ fuel := by
          cases found : findTopLevelMemberSeparator next with
          | none => simp
          | some parts =>
            have lengths := findTop_length found
            simp only [Option.getD_some]
            omega
        split
        · simp [invalid]
        · split <;> exact ih _ left

theorem parseFields_settled {f g : List Char → Parsed (AxExpr F)} {bound : Nat} (same : SameBelow bound f g)
    (comma : Bool) {parts : List (List Char)} (short : ∀ part ∈ parts, part.length ≤ bound)
    (fields : List (String × AxExpr F)) :
    Settled (parseFields line f comma parts fields) (parseFields line g comma parts fields) := by
  induction parts generalizing fields with
  | nil => exact settled_ok fields
  | cons part rest ih =>
    have later := ih fun other member => short other (List.mem_cons_of_mem part member)
    unfold parseFields
    split
    · exact settled_ok fields
    · split
      · exact settled_invalid _ _
      · next before after found =>
        dsimp only
        split
        · exact settled_invalid _ _
        · have key : Settled (parseKey line (trimChars before)) (parseKey line (trimChars before)) := by
            unfold parseKey
            apply (settled_refl (parseQuotedString_shallow _)).bind
            intro value _
            split
            · exact settled_ok _
            · split
              · exact settled_ok _
              · exact settled_invalid _ _
          apply key.bind
          intro key _
          split
          · exact settled_invalid _ _
          · have lengths := findTop_length found
            have trimmed := trimChars_length after.tail
            have whole := short part List.mem_cons_self
            rw [List.length_tail] at trimmed
            apply (same _ (by omega)).bind
            intro value _
            exact later _

theorem parseListExpr_settled {f g : List Char → Parsed (AxExpr F)} {input : List Char}
    (same : SameBelow input.length f g) :
    Settled (parseListExpr line f input) (parseListExpr line g input) := by
  unfold parseListExpr
  split
  · exact settled_invalid _ _
  · next brackets =>
    have head : input.head? = some '[' := by
      by_contra other
      exact brackets (.inl other)
    obtain ⟨rest, rfl⟩ := List.head?_eq_some_iff.mp head
    dsimp only
    split
    · exact settled_ok _
    · have trimmed := trimChars_length ('[' :: rest).tail.dropLast
      have items : Settled
          ((splitTopLevel (trimChars ('[' :: rest).tail.dropLast) ',').mapM fun part =>
            if part.isEmpty then invalid line ("empty item in list literal " ++ shown ('[' :: rest)) else f part)
          ((splitTopLevel (trimChars ('[' :: rest).tail.dropLast) ',').mapM fun part =>
            if part.isEmpty then invalid line ("empty item in list literal " ++ shown ('[' :: rest)) else g part) := by
        apply Settled.mapM
        intro part member
        have short := mem_splitTopLevel_length member
        split
        · exact settled_invalid _ _
        · apply same
          simp only [List.tail_cons, List.length_dropLast, List.length_cons] at trimmed short ⊢
          omega
      apply items.bind
      intro values _
      exact settled_ok _

theorem parseObjectExpr_settled {f g : List Char → Parsed (AxExpr F)} {input : List Char}
    (same : SameBelow input.length f g) :
    Settled (parseObjectExpr line f input) (parseObjectExpr line g input) := by
  unfold parseObjectExpr
  split
  · exact settled_invalid _ _
  · dsimp only
    split
    · exact settled_ok _
    · have trimmed := trimChars_length input.tail.dropLast
      apply (parseFields_settled same _ (fun part member => ?_) _).bind
      · intro fields _
        exact settled_ok _
      · have short := mem_splitTopLevel_length member
        simp only [List.length_dropLast, List.length_tail] at trimmed
        omega

theorem parseCall_settled {f g : List Char → Parsed (AxExpr F)} {input path behind : List Char}
    (same : SameBelow input.length f g) (short : behind.length ≤ input.length) (present : behind ≠ []) :
    Settled (parseCall line f input path behind) (parseCall line g input path behind) := by
  have more := List.length_pos_iff.mpr present
  unfold parseCall
  dsimp only
  split
  · exact settled_invalid _ _
  · split
    · exact settled_ok _
    · apply Settled.bind
      · apply Settled.mapM
        intro part member
        have inside := mem_splitTopLevel_length member
        have trimmed := trimChars_length part
        apply same
        simp only [List.length_dropLast, List.length_tail] at inside
        omega
      · intro args _
        exact settled_ok _

theorem parseMemberExpr_settled {f g : List Char → Parsed (AxExpr F)} {input : List Char}
    (same : SameBelow input.length f g) :
    Settled (parseMemberExpr line f input) (parseMemberExpr line g input) := by
  unfold parseMemberExpr
  split
  · exact settled_invalid _ _
  · next first cursor found =>
    dsimp only
    split
    · exact settled_invalid _ _
    · have lengths := findTop_length found
      have whole := trimChars_length input
      have trimmed := trimChars_length first
      apply (same _ (by omega)).bind
      intro object _
      exact settled_refl (parseMembers_shallow input object (le_refl _))

theorem parseForms_settled {f g p q : List Char → Parsed (AxExpr F)} {input : List Char}
    (expr : SameBelow input.length f g) (primary : SameBelow input.length p q) :
    Settled (parseForms line f p input) (parseForms line g q input) := by
  unfold parseForms
  apply (settled_refl (parseQuotedString_shallow input)).bind
  intro quoted _
  split
  · exact settled_ok _
  · split
    · exact settled_ok _
    · split
      · exact settled_ok _
      · split
        · exact settled_ok _
        · split
          · exact parseListExpr_settled expr
          · split
            · exact parseObjectExpr_settled expr
            · split
              · next path behind found =>
                split at found
                · have lengths := findTop_length found
                  exact parseCall_settled expr (by omega) (List.length_pos_iff.mp lengths.2)
                · cases found
              · split
                · exact parseMemberExpr_settled primary
                · exact settled_ok _

end Forms

section Depth

variable {F : Type} [Float64 F] (parseF64 : String → Option F) (line : Nat)

/-- With enough fuel for the length of the text, fuel makes no difference. -/
theorem parser_settled (fuel : Nat) :
    (∀ other (input : List Char), 4 * input.length + 4 ≤ fuel → 4 * input.length + 4 ≤ other →
      Settled (parseExprFrom parseF64 line fuel input) (parseExprFrom parseF64 line other input)) ∧
    (∀ other (input : List Char) minPrecedence, 4 * input.length + 3 ≤ fuel → 4 * input.length + 3 ≤ other →
      Settled (parseBinaryFrom parseF64 line fuel input minPrecedence)
        (parseBinaryFrom parseF64 line other input minPrecedence)) ∧
    (∀ other (input : List Char), 4 * input.length + 2 ≤ fuel → 4 * input.length + 2 ≤ other →
      Settled (parseUnaryFrom parseF64 line fuel input) (parseUnaryFrom parseF64 line other input)) ∧
    (∀ other (input : List Char), 4 * input.length + 1 ≤ fuel → 4 * input.length + 1 ≤ other →
      Settled (parsePrimaryFrom parseF64 line fuel input) (parsePrimaryFrom parseF64 line other input)) := by
  induction fuel with
  | zero => exact ⟨by omega, by omega, by omega, by omega⟩
  | succ fuel ih =>
    obtain ⟨expr, binary, unary, primary⟩ := ih
    refine ⟨?_, ?_, ?_, ?_⟩
    · intro other input enough also
      obtain ⟨other, rfl⟩ : ∃ n, other = n + 1 := ⟨other - 1, by omega⟩
      have trimmed := trimChars_length input
      unfold parseExprFrom
      dsimp only
      split
      · exact settled_invalid _ _
      · split
        · exact parseTarget_settled _ _
        · split
          · exact parseTarget_settled _ _
          · split
            · next literal => exact parseNumericLiteral_settled literal
            · exact binary other _ 0 (by omega) (by omega)
    · intro other input minPrecedence enough also
      obtain ⟨other, rfl⟩ : ∃ n, other = n + 1 := ⟨other - 1, by omega⟩
      unfold parseBinaryFrom
      split
      · exact unary other input (by omega) (by omega)
      · next candidate found =>
        obtain ⟨left, right⟩ := findLowest_length found
        dsimp only
        split
        · exact settled_invalid _ _
        · apply (binary other _ minPrecedence (by omega) (by omega)).bind
          intro leftValue _
          apply (binary other _ (binaryPrecedence candidate.op + 1) (by omega) (by omega)).bind
          intro rightValue _
          exact settled_ok _
    · intro other input enough also
      obtain ⟨other, rfl⟩ : ∃ n, other = n + 1 := ⟨other - 1, by omega⟩
      have trimmed := trimChars_length input
      have shorter (c : Char) (sign : (trimChars input).head? = some c) :
          (trimChars (trimChars input).tail).length < (trimChars input).length := by
        obtain ⟨rest, shape⟩ := List.head?_eq_some_iff.mp sign
        have rest := trimChars_length (trimChars input).tail
        rw [shape] at rest ⊢
        simp only [List.tail_cons, List.length_cons] at rest ⊢
        omega
      unfold parseUnaryFrom
      dsimp only
      split
      · next literal => exact parseNumericLiteral_settled literal
      · split
        · next sign =>
          have rest := shorter '!' sign
          split
          · exact primary other _ (by omega) (by omega)
          · exact (unary other _ (by omega) (by omega)).map _
        · split
          · next sign =>
            have rest := shorter '-' sign
            split
            · exact primary other _ (by omega) (by omega)
            · split
              · exact settled_ok _
              · exact (unary other _ (by omega) (by omega)).map _
          · exact primary other _ (by omega) (by omega)
    · intro other input enough also
      obtain ⟨other, rfl⟩ : ∃ n, other = n + 1 := ⟨other - 1, by omega⟩
      have trimmed := trimChars_length input
      unfold parsePrimaryFrom
      dsimp only
      split
      · next different =>
        have shorter := trimWrappingParens_length different
        exact binary other _ 0 (by omega) (by omega)
      · next unchanged =>
        have same : trimWrappingParens (trimChars input) = trimChars input := not_not.mp unchanged
        rw [same]
        apply (settled_refl (splitTrailingIndex_shallow _)).bind
        intro found split
        cases found with
        | some parts =>
          obtain ⟨object, index⟩ := parts
          obtain ⟨left, right⟩ := splitTrailingIndex_length split
          dsimp only
          apply (primary other _ (by omega) (by omega)).bind
          intro objectValue _
          apply (expr other _ (by omega) (by omega)).bind
          intro indexValue _
          exact settled_ok _
        | none =>
          dsimp only
          apply parseForms_settled
          · exact fun part short => expr other part (by omega) (by omega)
          · exact fun part short => primary other part (by omega) (by omega)

/-- Every text has an expression or an error. -/
theorem parseExpr_total (input : List Char) : parseExpr parseF64 line input ≠ .error .deep :=
  ((parser_settled parseF64 line _).1 _ input (le_refl _) (le_refl _)).2

variable {parseF64 line}

theorem parseExpr_from {fuel : Nat} {input : List Char} (enough : 4 * input.length + 4 ≤ fuel) :
    parseExprFrom parseF64 line fuel input = parseExpr parseF64 line input :=
  ((parser_settled parseF64 line fuel).1 _ input enough (le_refl _)).1

theorem parseBinaryExpr_from {fuel : Nat} {input : List Char} (minPrecedence : Nat)
    (enough : 4 * input.length + 3 ≤ fuel) : parseBinaryFrom parseF64 line fuel input minPrecedence =
      parseBinaryExpr parseF64 line input minPrecedence :=
  ((parser_settled parseF64 line fuel).2.1 _ input minPrecedence enough (le_refl _)).1

theorem parseUnaryExpr_from {fuel : Nat} {input : List Char} (enough : 4 * input.length + 2 ≤ fuel) :
    parseUnaryFrom parseF64 line fuel input = parseUnaryExpr parseF64 line input :=
  ((parser_settled parseF64 line fuel).2.2.1 _ input enough (le_refl _)).1

theorem parsePrimaryExpr_from {fuel : Nat} {input : List Char} (enough : 4 * input.length + 1 ≤ fuel) :
    parsePrimaryFrom parseF64 line fuel input = parsePrimaryExpr parseF64 line input :=
  ((parser_settled parseF64 line fuel).2.2.2 _ input enough (le_refl _)).1

/-! The functions as the source calls them, with no bound on the depth. -/

theorem parseExpr_eq (input : List Char) : parseExpr parseF64 line input =
    if (trimChars input).isEmpty then invalid line "expression is empty"
    else if "load ".toList.isPrefixOf (trimChars input) then
      parseTarget line "load" ((trimChars input).drop 5)
    else if "action ".toList.isPrefixOf (trimChars input) then
      parseTarget line "action" ((trimChars input).drop 7)
    else match parseNumericLiteral parseF64 (trimChars input) line with
      | some number => number
      | none => parseBinaryExpr parseF64 line (trimChars input) 0 := by
  have trimmed := trimChars_length input
  rw [parseExpr, parseExprFrom]
  simp only [parseBinaryExpr_from 0 (show 4 * (trimChars input).length + 3 ≤ 4 * input.length + 3 by omega)]
  all_goals rfl

theorem parseBinaryExpr_eq (input : List Char) (minPrecedence : Nat) :
    parseBinaryExpr parseF64 line input minPrecedence =
    match findLowestPrecedenceOperator input minPrecedence with
    | none => parseUnaryExpr parseF64 line input
    | some candidate =>
      let leftSource := trimChars candidate.before.reverse
      let rightSource := trimChars (candidate.after.drop (binaryOpLen candidate.op))
      if leftSource.isEmpty || rightSource.isEmpty then
        invalid line ("missing operand in " ++ shown input)
      else do
        let left ← parseBinaryExpr parseF64 line leftSource minPrecedence
        let right ← parseBinaryExpr parseF64 line rightSource (binaryPrecedence candidate.op + 1)
        return .binary candidate.op left right := by
  rw [parseBinaryExpr, parseBinaryFrom]
  cases found : findLowestPrecedenceOperator input minPrecedence with
  | none => rfl
  | some candidate =>
    obtain ⟨left, right⟩ := findLowest_length found
    have first := @parseBinaryExpr_from F _ parseF64 line (4 * input.length + 2)
      (trimChars candidate.before.reverse) minPrecedence (by omega)
    have second := @parseBinaryExpr_from F _ parseF64 line (4 * input.length + 2)
      (trimChars (candidate.after.drop (binaryOpLen candidate.op))) (binaryPrecedence candidate.op + 1)
      (by omega)
    simp only [first, second]

theorem parseUnaryExpr_eq (input : List Char) : parseUnaryExpr parseF64 line input =
    match parseNumericLiteral parseF64 (trimChars input) line with
    | some number => number
    | none =>
      if (trimChars input).head? = some '!' then
        if (trimChars (trimChars input).tail).isEmpty ||
            (trimChars (trimChars input).tail).head? = some '=' then
          parsePrimaryExpr parseF64 line (trimChars input)
        else (parseUnaryExpr parseF64 line (trimChars (trimChars input).tail)).map (.unary .not)
      else if (trimChars input).head? = some '-' then
        if (trimChars (trimChars input).tail).isEmpty then
          parsePrimaryExpr parseF64 line (trimChars input)
        else match parseI64 (trimChars input) with
          | some value => .ok (.number value)
          | none => (parseUnaryExpr parseF64 line (trimChars (trimChars input).tail)).map (.unary .neg)
      else parsePrimaryExpr parseF64 line (trimChars input) := by
  have trimmed := trimChars_length input
  rw [parseUnaryExpr, parseUnaryFrom]
  by_cases signed : (trimChars input).head? = some '!' ∨ (trimChars input).head? = some '-'
  · have shorter : (trimChars (trimChars input).tail).length < (trimChars input).length := by
      have rest := trimChars_length (trimChars input).tail
      rcases signed with sign | sign <;>
        · obtain ⟨behind, shape⟩ := List.head?_eq_some_iff.mp sign
          rw [shape] at rest ⊢
          simp only [List.tail_cons, List.length_cons] at rest ⊢
          omega
    simp only [parsePrimaryExpr_from (show 4 * (trimChars input).length + 1 ≤ 4 * input.length + 1 by omega),
      parseUnaryExpr_from
        (show 4 * (trimChars (trimChars input).tail).length + 2 ≤ 4 * input.length + 1 by omega)]
    all_goals rfl
  · obtain ⟨plain, positive⟩ := not_or.mp signed
    simp only [if_neg plain, if_neg positive,
      parsePrimaryExpr_from (show 4 * (trimChars input).length + 1 ≤ 4 * input.length + 1 by omega)]
    all_goals rfl

theorem parsePrimaryExpr_eq (input : List Char) : parsePrimaryExpr parseF64 line input =
    if trimWrappingParens (trimChars input) ≠ trimChars input then
      parseBinaryExpr parseF64 line (trimWrappingParens (trimChars input)) 0
    else (do
      match ← splitTrailingIndex line (trimChars input) with
      | some (objectSource, indexSource) =>
        let object ← parsePrimaryExpr parseF64 line objectSource
        let index ← parseExpr parseF64 line indexSource
        return .index object index
      | none =>
        parseForms line (parseExpr parseF64 line) (parsePrimaryExpr parseF64 line) (trimChars input)) := by
  have trimmed := trimChars_length input
  rw [parsePrimaryExpr, parsePrimaryFrom]
  split
  · next different =>
    have shorter := trimWrappingParens_length different
    exact parseBinaryExpr_from 0 (by omega)
  · next unchanged =>
    rw [not_not.mp unchanged]
    cases split : splitTrailingIndex line (trimChars input) with
    | error failure => rfl
    | ok found =>
      cases found with
      | some parts =>
        obtain ⟨object, index⟩ := parts
        obtain ⟨left, right⟩ := splitTrailingIndex_length split
        change (parsePrimaryFrom parseF64 line (4 * input.length) object >>= _) = _
        rw [parsePrimaryExpr_from (by omega)]
        refine congrArg (parsePrimaryExpr parseF64 line object >>= ·) (funext fun value => ?_)
        rw [parseExpr_from (by omega)]
      | none =>
        refine (parseForms_settled ?_ ?_).1
        · intro part short
          have settled := (parser_settled parseF64 line (4 * input.length)).1 (4 * part.length + 4) part
          exact settled (by omega) (le_refl _)
        · intro part short
          have settled := (parser_settled parseF64 line (4 * input.length)).2.2.2 (4 * part.length + 1) part
          exact settled (by omega) (le_refl _)

end Depth

end Axonyx.Core.Parser
