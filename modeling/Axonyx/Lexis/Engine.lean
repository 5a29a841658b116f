import Axonyx.Lexis

/-! The statements of a script as a database splits it. On top of the common rules an engine
may quote names with brackets and texts with a tag between dollar signs, where another reads a
variable, and it may keep the statements of a trigger's body inside the one that creates it. -/
namespace Lexis

structure Engine extends Rules where
  /-- Otherwise a dollar sign starts a variable. -/
  dollarQuotes : Bool
  brackets : Bool
  triggerBodies : Bool

def behind (delimiter text : List Char) : Option (List Char) :=
  (Text.splitOnceChars delimiter text).map Prod.snd

def isTagChar (c : Char) : Bool := isWordStart c || c.isDigit

/-- The tag of a dollar quote, and the text behind it. -/
def dollarTag (text : List Char) : Option (List Char × List Char) :=
  let tag := text.takeWhile isTagChar
  match text.dropWhile isTagChar with
  | '$' :: body => if tag.head?.all isWordStart then some (tag, body) else none
  | _ => none

/-- The token at the front and what follows, as in `readToken`. -/
def Engine.read (engine : Engine) (c : Char) (rest : List Char) :
    Option Token × Option (List Char) :=
  if c = '$' then
    if engine.dollarQuotes then
      match dollarTag rest with
      | some (tag, body) => (some .quoted, behind ('$' :: tag ++ ['$']) body)
      | none => (some (.symbol '$'), some rest)
    else (some (.symbol '$'), some (rest.dropWhile isWordChar))
  else if engine.brackets ∧ c = '[' then (some .quoted, behind [']'] rest)
  else readToken engine.toRules c rest

def Engine.tokensFrom (engine : Engine) : Nat → List Char → List Token
  | 0, _ | _, [] => []
  | fuel + 1, c :: rest =>
    (engine.read c rest).1.toList ++ engine.tokensFrom fuel ((engine.read c rest).2.getD [])

def Engine.tokens (engine : Engine) (text : List Char) : List Token :=
  engine.tokensFrom text.length text

/-- The parts of a script between its semicolons. -/
def pieces (tokens : List Token) : List (List Token) := tokens.splitOnP (· == .semicolon)

def dropExplain : List Token → List Token
  | .word "explain" :: .word "query" :: .word "plan" :: rest => rest
  | .word "explain" :: rest => rest
  | tokens => tokens

def opensTrigger (piece : List Token) : Bool :=
  match dropExplain piece with
  | .word "create" :: .word "trigger" :: _ => true
  | .word "create" :: .word "temp" :: .word "trigger" :: _ => true
  | .word "create" :: .word "temporary" :: .word "trigger" :: _ => true
  | _ => false

/-- The parts that begin a statement; the body of a trigger goes on to a lone `end`. -/
def topLevel : Bool → List (List Token) → List (List Token)
  | _, [] => []
  | true, piece :: rest => topLevel (piece != [.word "end"]) rest
  | false, piece :: rest => piece :: topLevel (opensTrigger piece) rest

def Engine.statements (engine : Engine) (text : List Char) : List (List Token) :=
  let pieces := pieces (engine.tokens text)
  if engine.triggerBodies then topLevel false pieces else pieces

section Progress

theorem behind_suffix {delimiter text rest : List Char}
    (found : behind delimiter text = some rest) : rest <:+ text := by
  obtain ⟨⟨before, after⟩, split, rfl⟩ := Option.map_eq_some_iff.mp found
  exact ⟨before ++ delimiter, (Text.splitOnceChars_eq_some split).symm⟩

theorem dollarTag_suffix {text tag body : List Char} (found : dollarTag text = some (tag, body)) :
    body <:+ text := by
  unfold dollarTag at found
  split at found
  · next shape =>
    dsimp only at found
    split at found
    · obtain ⟨-, rfl⟩ := Prod.mk.inj (Option.some.inj found)
      exact (List.suffix_cons _ _).trans (shape ▸ List.dropWhile_suffix _)
    · cases found
  · cases found

theorem Engine.read_suffix {engine : Engine} {c : Char} {rest later : List Char}
    (more : (engine.read c rest).2 = some later) : later <:+ rest := by
  unfold Engine.read at more
  split at more
  · split at more
    · split at more
      · next body found => exact (behind_suffix more).trans (dollarTag_suffix found)
      · cases more
        exact List.suffix_refl _
    · cases more
      exact List.dropWhile_suffix _
  · split at more
    · exact behind_suffix more
    · exact readToken_suffix more

theorem Engine.read_rest (engine : Engine) (c : Char) (rest : List Char) :
    (engine.read c rest).2.getD [] <:+ rest := by
  cases more : (engine.read c rest).2 with
  | none => exact List.nil_suffix
  | some later => exact engine.read_suffix more

theorem Engine.tokensFrom_fuel (engine : Engine) {fuel other : Nat} {text : List Char}
    (enough : text.length ≤ fuel) (too : text.length ≤ other) :
    engine.tokensFrom fuel text = engine.tokensFrom other text := by
  induction fuel generalizing other text with
  | zero =>
    obtain rfl : text = [] := List.length_eq_zero_iff.mp (by omega)
    cases other <;> rfl
  | succ fuel ih =>
    cases text with
    | nil => cases other <;> rfl
    | cons c rest =>
      cases other with
      | zero => simp at too
      | succ other =>
        simp only [List.length_cons] at enough too
        have shorter := (engine.read_rest c rest).length_le
        exact congrArg (_ ++ ·) (ih (by omega) (by omega))

/-- The tokens of a text, by the one at its front. -/
theorem Engine.tokens_cons (engine : Engine) (c : Char) (rest : List Char) :
    engine.tokens (c :: rest) =
      (engine.read c rest).1.toList ++ engine.tokens ((engine.read c rest).2.getD []) := by
  have shorter := (engine.read_rest c rest).length_le
  exact congrArg (_ ++ ·) (engine.tokensFrom_fuel shorter (Nat.le_refl _))

end Progress

section Words

/-- A word token is the word at the front of the text. -/
theorem readToken_word {rules : Rules} {c : Char} {rest : List Char} {word : String}
    (token : (readToken rules c rest).1 = some (.word word)) :
    isWordStart c = true ∧ word = lowercase (c :: rest.takeWhile isWordChar) ∧
      (readToken rules c rest).2 = some (rest.dropWhile isWordChar) := by
  have plain : readToken rules c rest =
      (some (.word (lowercase (c :: rest.takeWhile isWordChar))), some (rest.dropWhile isWordChar)) ∧
        isWordStart c = true := by
    unfold readToken at token ⊢
    repeat' split at token
    all_goals first
      | cases token; done
      | next quote line block opening closing semicolon start =>
        rw [if_neg quote, if_neg line, if_neg block, if_neg opening, if_neg closing,
          if_neg semicolon, if_pos start]
        exact ⟨rfl, start⟩
  rw [plain.1] at token ⊢
  exact ⟨plain.2, (Token.word.inj (Option.some.inj token)).symm, rfl⟩

/-- Apart from dollar signs and brackets an engine reads by the common rules. -/
theorem Engine.read_cases (engine : Engine) (c : Char) (rest : List Char) :
    (∃ other, (engine.read c rest).1 = some other ∧ (other = .quoted ∨ ∃ d, other = .symbol d)) ∨
      engine.read c rest = readToken engine.toRules c rest := by
  unfold Engine.read
  split
  · refine .inl ?_
    split
    · split
      · exact ⟨_, rfl, .inl rfl⟩
      · exact ⟨_, rfl, .inr ⟨_, rfl⟩⟩
    · exact ⟨_, rfl, .inr ⟨_, rfl⟩⟩
  · split
    · exact .inl ⟨_, rfl, .inl rfl⟩
    · exact .inr rfl

theorem Engine.read_word {engine : Engine} {c : Char} {rest : List Char} {word : String}
    (token : (engine.read c rest).1 = some (.word word)) :
    isWordStart c = true ∧ word = lowercase (c :: rest.takeWhile isWordChar) ∧
      (engine.read c rest).2 = some (rest.dropWhile isWordChar) := by
  rcases engine.read_cases c rest with ⟨other, same, rfl | ⟨d, rfl⟩⟩ | plain
  · rw [same] at token
    cases token
  · rw [same] at token
    cases token
  · rw [plain] at token ⊢
    exact readToken_word token

theorem Engine.read_semicolon {engine : Engine} {c : Char} {rest : List Char}
    (token : (engine.read c rest).1 = some .semicolon) :
    (engine.read c rest).2 = some rest ∧ c = ';' := by
  rcases engine.read_cases c rest with ⟨other, same, rfl | ⟨d, rfl⟩⟩ | plain
  · rw [same] at token
    cases token
  · rw [same] at token
    cases token
  · rw [plain] at token ⊢
    refine ⟨readToken_semicolon token, ?_⟩
    unfold readToken at token
    repeat' split at token
    all_goals first
      | cases token; done
      | assumption

end Words

section Statements

theorem mem_topLevel {inside : Bool} {pieces : List (List Token)} {piece : List Token}
    (member : piece ∈ topLevel inside pieces) : piece ∈ pieces := by
  induction pieces generalizing inside with
  | nil => cases inside <;> cases member
  | cons first rest ih =>
    cases inside with
    | true => exact List.mem_cons_of_mem _ (ih member)
    | false =>
      rcases List.mem_cons.mp member with rfl | later
      · exact List.mem_cons_self
      · exact List.mem_cons_of_mem _ (ih later)

theorem Engine.mem_statements {engine : Engine} {text : List Char} {piece : List Token}
    (member : piece ∈ engine.statements text) : piece ∈ pieces (engine.tokens text) := by
  unfold Engine.statements at member
  split at member
  · exact mem_topLevel member
  · exact member

end Statements

end Lexis
