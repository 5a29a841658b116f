import Axonyx.Text

/-! Reading a text as SQL tokens. A quote inside a quoted part is doubled and a backslash is a
character like any other; a dialect says which characters quote, where a line ends
and whether block comments nest. -/
namespace Lexis

structure Rules where
  quotes : List Char
  lineEnds : List Char
  nested : Bool

inductive Token where
  | word (text : String)
  | quoted
  | semicolon
  | opening
  | closing
  | symbol (c : Char)
  deriving DecidableEq, Repr

def isBlank (c : Char) : Bool := c ∈ [' ', '\t', '\n', '\r', '\x0c']

def isWordStart (c : Char) : Bool := c.isAlpha || c == '_' || 0x80 ≤ c.toNat

def isWordChar (c : Char) : Bool := isWordStart c || c.isDigit || c == '$'

section Reading

/-- The text behind the end of a quoted part, unless the text ends before. -/
def quotedRest (quote : Char) : List Char → Option (List Char)
  | [] => none
  | [c] => if c = quote then some [] else none
  | c :: d :: rest =>
    if c = quote then if d = quote then quotedRest quote rest else some (d :: rest)
    else quotedRest quote (d :: rest)

def lineRest (lineEnds : List Char) : List Char → Option (List Char)
  | [] => none
  | c :: rest => if c ∈ lineEnds then some (c :: rest) else lineRest lineEnds rest

def blockRest (nested : Bool) : Nat → List Char → Option (List Char)
  | _, [] | _, [_] => none
  | depth, c :: d :: rest =>
    if c = '*' ∧ d = '/' then
      match depth with
      | 0 => some rest
      | outer + 1 => blockRest nested outer rest
    else if nested = true ∧ c = '/' ∧ d = '*' then blockRest nested (depth + 1) rest
    else blockRest nested depth (d :: rest)

def lowercase (text : List Char) : String := .ofList (text.map Char.toLower)

/-- The token at the front, if it is one, and what follows; no rest, if the text ends inside
a comment or a quoted part. -/
def readToken (rules : Rules) (c : Char) (rest : List Char) : Option Token × Option (List Char) :=
  if c ∈ rules.quotes then (some .quoted, quotedRest c rest)
  else if c = '-' ∧ rest.head? = some '-' then (none, lineRest rules.lineEnds rest.tail)
  else if c = '/' ∧ rest.head? = some '*' then (none, blockRest rules.nested 0 rest.tail)
  else if c = '(' then (some .opening, some rest)
  else if c = ')' then (some .closing, some rest)
  else if c = ';' then (some .semicolon, some rest)
  else if isWordStart c then
    (some (.word (lowercase (c :: rest.takeWhile isWordChar))), some (rest.dropWhile isWordChar))
  else if isBlank c then (none, some rest)
  else (some (.symbol c), some rest)

/-- The tokens of a text, and whether it ends outside every comment and quoted part. -/
structure Reading where
  tokens : List Token
  closed : Bool
  deriving DecidableEq, Repr

def Reading.after (token : Option Token) (later : Reading) : Reading :=
  ⟨token.toList ++ later.tokens, later.closed⟩

def lexFrom (rules : Rules) : Nat → List Char → Reading
  | 0, _ | _, [] => ⟨[], true⟩
  | fuel + 1, c :: rest =>
    match readToken rules c rest with
    | (token, none) => ⟨token.toList, false⟩
    | (token, some rest) => (lexFrom rules fuel rest).after token

def lex (rules : Rules) (text : List Char) : Reading := lexFrom rules text.length text

end Reading

/-- The token at the front, where no quoted part and no comment starts. -/
theorem readToken_plain {rules : Rules} {c : Char} {rest : List Char} (quote : c ∉ rules.quotes)
    (line : ¬(c = '-' ∧ rest.head? = some '-')) (block : ¬(c = '/' ∧ rest.head? = some '*')) :
    readToken rules c rest =
      if c = '(' then (some .opening, some rest)
      else if c = ')' then (some .closing, some rest)
      else if c = ';' then (some .semicolon, some rest)
      else if isWordStart c then
        (some (.word (lowercase (c :: rest.takeWhile isWordChar))), some (rest.dropWhile isWordChar))
      else if isBlank c then (none, some rest)
      else (some (.symbol c), some rest) := by
  rw [readToken, if_neg quote, if_neg line, if_neg block]

theorem readToken_semicolon {rules : Rules} {c : Char} {rest : List Char}
    (token : (readToken rules c rest).1 = some .semicolon) :
    (readToken rules c rest).2 = some rest := by
  unfold readToken at token ⊢
  grind

section Depth

/-- The depth of parentheses behind a token. -/
def Token.depth (depth : Nat) : Token → Nat
  | .opening => depth + 1
  | .closing => depth - 1
  | _ => depth

def Token.topWord (depth : Nat) : Token → List String
  | .word text => if depth = 0 then [text] else []
  | _ => []

/-- The words outside every pair of parentheses. -/
def topWords : Nat → List Token → List String
  | _, [] => []
  | depth, token :: rest => token.topWord depth ++ topWords (token.depth depth) rest

/-- A semicolon stands at the end, and only there. -/
def SemicolonLast (tokens : List Token) : Prop :=
  ∀ before after, tokens = before ++ .semicolon :: after → after = []

/-- Behind a semicolon outside every parenthesis, only semicolons. -/
def TopSemicolons : Nat → List Token → Prop
  | _, [] => True
  | depth, token :: rest =>
    (token = .semicolon → depth = 0 → ∀ later ∈ rest, later = .semicolon) ∧
      TopSemicolons (token.depth depth) rest

/-- No two semicolons in a row, and nothing behind a semicolon inside parentheses. -/
def LoneSemicolons : Nat → List Token → Prop
  | _, [] => True
  | depth, token :: rest =>
    (token = .semicolon → rest.head? ≠ some .semicolon ∧ (depth ≠ 0 → rest = [])) ∧
      LoneSemicolons (token.depth depth) rest

theorem semicolonLast_cons {token : Token} {rest : List Token} :
    SemicolonLast (token :: rest) ↔ (token = .semicolon → rest = []) ∧ SemicolonLast rest := by
  constructor
  · intro last
    refine ⟨fun same => last [] rest (by rw [same]; rfl), fun before after shape => ?_⟩
    exact last (token :: before) after (by rw [shape]; rfl)
  · rintro ⟨here, later⟩ before after shape
    cases before with
    | nil =>
      obtain ⟨rfl, rfl⟩ := List.cons.inj shape
      exact here rfl
    | cons first before =>
      obtain ⟨rfl, deeper⟩ := List.cons.inj shape
      exact later before after deeper

theorem semicolonLast_iff {depth : Nat} {tokens : List Token} (top : TopSemicolons depth tokens) :
    SemicolonLast tokens ↔ LoneSemicolons depth tokens := by
  induction tokens generalizing depth with
  | nil => simp [SemicolonLast, LoneSemicolons]
  | cons token rest ih =>
    rw [semicolonLast_cons, LoneSemicolons, ih top.2]
    refine and_congr_left fun _ => forall_congr' fun same => ?_
    constructor
    · rintro rfl
      simp
    · rintro ⟨single, deeper⟩
      by_cases outside : depth = 0
      · have all := top.1 same outside
        cases rest with
        | nil => rfl
        | cons next rest => exact absurd (by simp [all next]) single
      · exact deeper outside

end Depth

section Progress

theorem quotedRest_suffix {quote : Char} {text rest : List Char}
    (ends : quotedRest quote text = some rest) : rest <:+ text := by
  fun_induction quotedRest quote text with
  | case1 => cases ends
  | case2 =>
    cases ends
    exact List.nil_suffix
  | case3 => cases ends
  | case4 _ ih => exact (ih ends).trans ((List.suffix_cons _ _).trans (List.suffix_cons _ _))
  | case5 =>
    cases ends
    exact List.suffix_cons _ _
  | case6 _ _ _ _ ih => exact (ih ends).trans (List.suffix_cons _ _)

theorem lineRest_suffix {lineEnds text rest : List Char}
    (ends : lineRest lineEnds text = some rest) : rest <:+ text := by
  fun_induction lineRest lineEnds text with
  | case1 => cases ends
  | case2 =>
    cases ends
    exact List.suffix_refl _
  | case3 _ _ _ ih => exact (ih ends).trans (List.suffix_cons _ _)

theorem blockRest_suffix {nested : Bool} {depth : Nat} {text rest : List Char}
    (ends : blockRest nested depth text = some rest) : rest <:+ text := by
  fun_induction blockRest nested depth text with
  | case1 => cases ends
  | case2 => cases ends
  | case3 =>
    cases ends
    exact (List.suffix_cons _ _).trans (List.suffix_cons _ _)
  | case4 _ _ _ _ _ ih => exact (ih ends).trans ((List.suffix_cons _ _).trans (List.suffix_cons _ _))
  | case5 _ _ _ _ _ _ ih => exact (ih ends).trans ((List.suffix_cons _ _).trans (List.suffix_cons _ _))
  | case6 _ _ _ _ _ _ ih => exact (ih ends).trans (List.suffix_cons _ _)

theorem readToken_suffix {rules : Rules} {c : Char} {rest later : List Char}
    (more : (readToken rules c rest).2 = some later) : later <:+ rest := by
  unfold readToken at more
  split at more
  · exact quotedRest_suffix more
  · split at more
    · exact (lineRest_suffix more).trans (List.tail_suffix _)
    · split at more
      · exact (blockRest_suffix more).trans (List.tail_suffix _)
      · repeat' split at more
        all_goals cases more
        all_goals first
          | exact List.suffix_refl _
          | exact List.dropWhile_suffix _

theorem lexFrom_fuel (rules : Rules) {fuel other : Nat} {text : List Char}
    (enough : text.length ≤ fuel) (too : text.length ≤ other) :
    lexFrom rules fuel text = lexFrom rules other text := by
  induction fuel generalizing other text with
  | zero =>
    obtain rfl : text = [] := List.length_eq_zero_iff.mp (by omega)
    cases other <;> rfl
  | succ fuel ih =>
    cases text with
    | nil => cases other <;> rfl
    | cons c rest =>
      cases other with
      | zero => simp at too
      | succ other =>
        simp only [List.length_cons] at enough too
        rw [lexFrom, lexFrom]
        cases split : readToken rules c rest with
        | mk token next =>
          cases next with
          | none => rfl
          | some later =>
            have shorter := (readToken_suffix (congrArg Prod.snd split)).length_le
            exact congrArg (Reading.after token) (ih (by omega) (by omega))

/-- The reading of a text, by what stands at its front. -/
theorem lex_cons (rules : Rules) (c : Char) (rest : List Char) :
    lex rules (c :: rest) =
      match (readToken rules c rest).2 with
      | none => ⟨(readToken rules c rest).1.toList, false⟩
      | some later => (lex rules later).after (readToken rules c rest).1 := by
  rw [lex, List.length_cons, lexFrom]
  cases split : readToken rules c rest with
  | mk token next =>
    cases next with
    | none => rfl
    | some later =>
      have shorter := (readToken_suffix (congrArg Prod.snd split)).length_le
      exact congrArg (Reading.after token) (lexFrom_fuel rules shorter (Nat.le_refl _))

end Progress

section Appending

/-- A character that neither continues a word nor makes a longer token with what is before it. -/
structure Separate (rules : Rules) (c : Char) : Prop where
  word : isWordChar c = false
  quote : c ∉ rules.quotes
  dash : c ≠ '-'
  star : c ≠ '*'

variable {rules : Rules} {c : Char} {more : List Char}

theorem quotedRest_append {quote : Char} {text rest : List Char} (ends : quotedRest quote text = some rest)
    (other : c ≠ quote) : quotedRest quote (text ++ c :: more) = some (rest ++ c :: more) := by
  fun_induction quotedRest quote text with
  | case1 => cases ends
  | case2 =>
    cases ends
    simp [quotedRest, other]
  | case3 => cases ends
  | case4 _ ih => simpa [quotedRest] using ih ends
  | case5 d rest here =>
    cases ends
    simp [quotedRest, here]
  | case6 a d rest here ih =>
    have step := ih ends
    rw [List.cons_append] at step
    simpa [quotedRest, here] using step

theorem lineRest_append {lineEnds text rest : List Char} (ends : lineRest lineEnds text = some rest) :
    lineRest lineEnds (text ++ c :: more) = some (rest ++ c :: more) := by
  fun_induction lineRest lineEnds text with
  | case1 => cases ends
  | case2 d rest here =>
    cases ends
    simp [lineRest, here]
  | case3 d rest here ih => simpa [lineRest, here] using ih ends

theorem blockRest_append {nested : Bool} {depth : Nat} {text rest : List Char}
    (ends : blockRest nested depth text = some rest) :
    blockRest nested depth (text ++ c :: more) = some (rest ++ c :: more) := by
  fun_induction blockRest nested depth text with
  | case1 => cases ends
  | case2 => cases ends
  | case3 a d rest here =>
    cases ends
    simp [blockRest, here]
  | case4 a d rest here outer ih => simpa [blockRest, here] using ih ends
  | case5 depth a d rest here deeper ih => simpa [blockRest, here, deeper] using ih ends
  | case6 depth a d rest here deeper ih =>
    have step := ih ends
    rw [List.cons_append] at step
    simpa [blockRest, here, deeper] using step

theorem word_append {text : List Char} (stop : isWordChar c = false) :
    (text ++ c :: more).takeWhile isWordChar = text.takeWhile isWordChar ∧
      (text ++ c :: more).dropWhile isWordChar = text.dropWhile isWordChar ++ c :: more := by
  induction text with
  | nil => simp [stop]
  | cons d rest ih =>
    cases kind : isWordChar d with
    | true => simpa [kind] using ih
    | false => simp [kind]

theorem readToken_append (apart : Separate rules c) {d : Char} {rest later : List Char}
    (next : (readToken rules d rest).2 = some later) :
    readToken rules d (rest ++ c :: more) = ((readToken rules d rest).1, some (later ++ c :: more)) := by
  have head (e : Char) (other : c ≠ e) : (rest ++ c :: more).head? = some e ↔ rest.head? = some e := by
    cases rest <;> simp [other]
  have tail (e : Char) (here : rest.head? = some e) : (rest ++ c :: more).tail = rest.tail ++ c :: more := by
    cases rest with
    | nil => cases here
    | cons => rfl
  have word := @word_append c more rest apart.word
  unfold readToken at next ⊢
  by_cases quote : d ∈ rules.quotes
  · rw [if_pos quote] at next ⊢
    rw [if_pos quote]
    have other : c ≠ d := fun same => apart.quote (same ▸ quote)
    rw [quotedRest_append next other]
  · rw [if_neg quote] at next ⊢
    rw [if_neg quote]
    simp only [head '-' apart.dash, head '*' apart.star]
    by_cases line : d = '-' ∧ rest.head? = some '-'
    · rw [if_pos line] at next ⊢
      rw [if_pos line, tail _ line.2, lineRest_append next]
    · rw [if_neg line] at next ⊢
      rw [if_neg line]
      by_cases block : d = '/' ∧ rest.head? = some '*'
      · rw [if_pos block] at next ⊢
        rw [if_pos block, tail _ block.2, blockRest_append next]
      · rw [if_neg block] at next ⊢
        rw [if_neg block, word.1, word.2]
        repeat' split at next
        all_goals
          obtain rfl := Option.some.inj next
          simp [*]

theorem lex_append (apart : Separate rules c) {text : List Char}
    (closed : (lex rules text).closed = true) (more : List Char) :
    lex rules (text ++ c :: more) =
      ⟨(lex rules text).tokens ++ (lex rules (c :: more)).tokens, (lex rules (c :: more)).closed⟩ := by
  match text with
  | [] => rfl
  | d :: rest =>
    rw [List.cons_append, lex_cons, lex_cons rules d rest]
    rw [lex_cons] at closed
    cases next : (readToken rules d rest).2 with
    | none =>
      rw [next] at closed
      cases closed
    | some later =>
      rw [next] at closed
      have shorter := (readToken_suffix next).length_le
      have step := lex_append apart closed more
      simp only [readToken_append apart next, step, Reading.after, List.append_assoc]
termination_by text.length
decreasing_by
  simp only [List.length_cons]
  omega

end Appending

end Lexis
