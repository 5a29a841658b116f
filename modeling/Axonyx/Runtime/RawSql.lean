import Axonyx.Lexis

/-! The guard of `db.query`: a scan over the text that has to find one SELECT, against what the
databases read in the same text; and the query that Postgres gets around it. -/
namespace Axonyx.Runtime.RawSql

open Lexis

inductive AxDatabaseDriver where
  | postgres | mySql | sqlite | memory
  deriving DecidableEq, Repr

def AxDatabaseDriver.asStr : AxDatabaseDriver → String
  | .postgres => "postgres"
  | .mySql => "mysql"
  | .sqlite => "sqlite"
  | .memory => "memory"

structure AxDbError where
  code : String
  message : String
  status : Nat
  driver : Option String
  resource : Option String
  detail : Option String
  deriving DecidableEq, Repr

/-- `AxDbError::new(AxDbErrorCode::InvalidQuery)`. -/
def AxDbError.invalidQuery : AxDbError where
  code := "db.invalid_query"
  message := "Database query is invalid."
  status := 400
  driver := none
  resource := none
  detail := none

section Guard

structure RawSqlAnalysis where
  topLevelWords : List String
  statementSeparators : Nat
  deriving DecidableEq, Repr

def RawSqlAnalysis.empty : RawSqlAnalysis := ⟨[], 0⟩

def RawSqlAnalysis.add (first later : RawSqlAnalysis) : RawSqlAnalysis :=
  ⟨first.topLevelWords ++ later.topLevelWords, first.statementSeparators + later.statementSeparators⟩

def quoteChars : List Char := ['\'', '"', '\x60']

def skipQuoted (quote : Char) : List Char → List Char
  | [] | [_] => []
  | c :: d :: rest =>
    if c = quote then if d = quote then skipQuoted quote rest else d :: rest
    else if c = '\\' then skipQuoted quote rest
    else skipQuoted quote (d :: rest)

def skipLine (text : List Char) : List Char := text.dropWhile (· ≠ '\n')

def skipBlock : List Char → List Char
  | [] | [_] => []
  | c :: d :: rest => if c = '*' ∧ d = '/' then rest else skipBlock (d :: rest)

def isScanStart (c : Char) : Bool := c.isAlpha || c == '_'

def isScanChar (c : Char) : Bool := c.isAlphanum || c == '_'

/-- One round of the loop: what it finds, and the depth and the text it goes on with. -/
def scanStep (depth : Nat) (c : Char) (rest : List Char) : RawSqlAnalysis × Nat × List Char :=
  if c ∈ quoteChars then (.empty, depth, skipQuoted c rest)
  else if c = '-' ∧ rest.head? = some '-' then (.empty, depth, skipLine rest.tail)
  else if c = '/' ∧ rest.head? = some '*' then (.empty, depth, skipBlock rest.tail)
  else if c = '(' then (.empty, depth + 1, rest)
  else if c = ')' then (.empty, depth - 1, rest)
  else if c = ';' ∧ depth = 0 then
    (⟨[], if rest.any fun later => !Text.isWhitespace later && later != ';' then 1 else 0⟩, depth, rest)
  else if depth = 0 ∧ isScanStart c then
    (⟨[lowercase (c :: rest.takeWhile isScanChar)], 0⟩, depth, rest.dropWhile isScanChar)
  else (.empty, depth, rest)

def scanFrom : Nat → Nat → List Char → RawSqlAnalysis
  | 0, _, _ | _, _, [] => .empty
  | fuel + 1, depth, c :: rest =>
    let (found, depth, rest) := scanStep depth c rest
    found.add (scanFrom fuel depth rest)

def scan (depth : Nat) (text : List Char) : RawSqlAnalysis := scanFrom text.length depth text

def analyzeRawSql (sql : List Char) : RawSqlAnalysis := scan 0 sql

def isStatementHead (word : String) : Bool :=
  word ∈ ["select", "insert", "update", "delete", "replace"]

def validateRawSelectSql (driver : AxDatabaseDriver) (sql : String) : Except AxDbError Unit :=
  let analysis := analyzeRawSql (Text.trim sql).toList
  let isSelect := analysis.topLevelWords.find? isStatementHead == some "select"
  let hasMultipleStatements := analysis.statementSeparators > 0
  if !isSelect || hasMultipleStatements then
    .error { AxDbError.invalidQuery with
      driver := some driver.asStr
      resource := some "raw_sql"
      detail := some "db.query only supports a single SELECT/WITH statement" }
  else .ok ()

def trimEndMatches (c : Char) (text : List Char) : List Char :=
  (text.reverse.dropWhile (· = c)).reverse

/-- The part of a text that `postgres_json_query` puts between the parentheses. -/
def queryBody (sql : String) : String :=
  Text.trim (.ofList (trimEndMatches ';' (Text.trim sql).toList))

def queryStart : String := "select row_to_json(\"__ax_row\") from ("

def queryFinish : String := ") as \"__ax_row\""

def postgresJsonQuery (sql : String) : String := queryStart ++ queryBody sql ++ queryFinish

end Guard

section Progress

theorem skipQuoted_suffix (quote : Char) (text : List Char) : skipQuoted quote text <:+ text := by
  fun_induction skipQuoted quote text with
  | case1 => exact List.nil_suffix
  | case2 => exact List.nil_suffix
  | case3 _ ih => exact ih.trans ((List.suffix_cons _ _).trans (List.suffix_cons _ _))
  | case4 => exact List.suffix_cons _ _
  | case5 _ _ _ ih => exact ih.trans ((List.suffix_cons _ _).trans (List.suffix_cons _ _))
  | case6 _ _ _ _ _ ih => exact ih.trans (List.suffix_cons _ _)

theorem skipBlock_suffix (text : List Char) : skipBlock text <:+ text := by
  fun_induction skipBlock text with
  | case1 => exact List.nil_suffix
  | case2 => exact List.nil_suffix
  | case3 => exact (List.suffix_cons _ _).trans (List.suffix_cons _ _)
  | case4 _ _ _ _ ih => exact ih.trans (List.suffix_cons _ _)

theorem scanStep_suffix (depth : Nat) (c : Char) (rest : List Char) :
    (scanStep depth c rest).2.2 <:+ rest := by
  unfold scanStep
  repeat' split
  · exact skipQuoted_suffix c rest
  · exact (List.dropWhile_suffix _).trans (List.tail_suffix _)
  · exact (skipBlock_suffix _).trans (List.tail_suffix _)
  · exact List.suffix_refl _
  · exact List.suffix_refl _
  · exact List.suffix_refl _
  · exact List.suffix_refl _
  · exact List.dropWhile_suffix _
  · exact List.suffix_refl _

theorem scanFrom_fuel {fuel other depth : Nat} {text : List Char} (enough : text.length ≤ fuel)
    (too : text.length ≤ other) : scanFrom fuel depth text = scanFrom other depth text := by
  induction fuel generalizing other depth text with
  | zero =>
    obtain rfl : text = [] := List.length_eq_zero_iff.mp (by omega)
    cases other <;> rfl
  | succ fuel ih =>
    cases text with
    | nil => cases other <;> rfl
    | cons c rest =>
      cases other with
      | zero => simp at too
      | succ other =>
        simp only [List.length_cons] at enough too
        have shorter := (scanStep_suffix depth c rest).length_le
        have same : scanFrom fuel (scanStep depth c rest).2.1 (scanStep depth c rest).2.2 =
            scanFrom other (scanStep depth c rest).2.1 (scanStep depth c rest).2.2 :=
          ih (by omega) (by omega)
        exact congrArg (RawSqlAnalysis.add _) same

/-- The scan of a text, by its first round. -/
theorem scan_cons (depth : Nat) (c : Char) (rest : List Char) :
    scan depth (c :: rest) = (scanStep depth c rest).1.add
      (scan (scanStep depth c rest).2.1 (scanStep depth c rest).2.2) := by
  have shorter := (scanStep_suffix depth c rest).length_le
  exact congrArg (RawSqlAnalysis.add _) (scanFrom_fuel shorter (Nat.le_refl _))

@[simp] theorem scan_nil (depth : Nat) : scan depth [] = .empty := rfl

@[simp] theorem empty_add (later : RawSqlAnalysis) : RawSqlAnalysis.empty.add later = later := by
  simp [RawSqlAnalysis.add, RawSqlAnalysis.empty]

@[simp] theorem add_empty (first : RawSqlAnalysis) : first.add .empty = first := by
  simp [RawSqlAnalysis.add, RawSqlAnalysis.empty]

end Progress

section Words

/-- The words that the scan takes from the characters of one word of the database. -/
def pieces (word : List Char) : List String := (scan 0 word).topLevelWords

theorem word_plain {c : Char} (word : isWordChar c = true) :
    c ∉ quoteChars ∧ c ≠ '-' ∧ c ≠ '/' ∧ c ≠ '(' ∧ c ≠ ')' ∧ c ≠ ';' := by
  refine ⟨?_, ?_, ?_, ?_, ?_, ?_⟩
  · intro member
    simp only [quoteChars, List.mem_cons, List.not_mem_nil, or_false] at member
    rcases member with rfl | rfl | rfl <;> revert word <;> decide
  all_goals
    rintro rfl
    revert word
    decide

theorem scanStep_plain {c : Char} (plain : c ∉ quoteChars ∧ c ≠ '-' ∧ c ≠ '/' ∧ c ≠ '(' ∧ c ≠ ')' ∧ c ≠ ';')
    (depth : Nat) (rest : List Char) :
    scanStep depth c rest =
      if depth = 0 ∧ isScanStart c then
        (⟨[lowercase (c :: rest.takeWhile isScanChar)], 0⟩, depth, rest.dropWhile isScanChar)
      else (.empty, depth, rest) := by
  obtain ⟨quote, dash, slash, opening, closing, semicolon⟩ := plain
  simp [scanStep, quote, dash, slash, opening, closing, semicolon]

theorem scanChar_word {c : Char} (kind : isScanChar c = true) : isWordChar c = true := by
  simp only [isScanChar, Char.isAlphanum, Bool.or_eq_true] at kind
  simp only [isWordChar, isWordStart, Bool.or_eq_true]
  rcases kind with (letter | digit) | score
  · exact .inl (.inl (.inl (.inl letter)))
  · exact .inl (.inr digit)
  · exact .inl (.inl (.inl (.inr score)))

theorem takeWhile_stop {text after : List Char} (stop : ∀ c ∈ after.head?, isScanChar c = false) :
    (text ++ after).takeWhile isScanChar = text.takeWhile isScanChar ∧
      (text ++ after).dropWhile isScanChar = text.dropWhile isScanChar ++ after := by
  induction text with
  | nil =>
    cases after with
    | nil => simp
    | cons c rest => simp [stop c rfl]
  | cons c text ih =>
    cases kind : isScanChar c with
    | true => simpa [kind] using ih
    | false => simp [kind]

/-- In front of a text that does not continue it, a word is scanned by itself. -/
theorem scan_word (depth : Nat) (word after : List Char) (all : ∀ c ∈ word, isWordChar c = true)
    (stop : ∀ c ∈ after.head?, isWordChar c = false) :
    scan depth (word ++ after) =
      (⟨if depth = 0 then pieces word else [], 0⟩ : RawSqlAnalysis).add (scan depth after) := by
  match word with
  | [] => simp [pieces, RawSqlAnalysis.empty, RawSqlAnalysis.add]
  | c :: rest =>
    have plain := word_plain (all c List.mem_cons_self)
    have later : ∀ d ∈ rest, isWordChar d = true := fun d member => all d (List.mem_cons_of_mem _ member)
    have apart : ∀ d ∈ after.head?, isScanChar d = false := by
      intro d head
      cases kind : isScanChar d with
      | false => rfl
      | true => exact absurd (scanChar_word kind) (by simp [stop d head])
    rw [List.cons_append, scan_cons, scanStep_plain plain]
    by_cases start : depth = 0 ∧ isScanStart c
    · obtain ⟨rfl, letter⟩ := start
      have drop : ∀ d ∈ rest.dropWhile isScanChar, isWordChar d = true := fun d member =>
        later d ((List.dropWhile_suffix _).subset member)
      have shorter := (List.dropWhile_suffix (l := rest) isScanChar).length_le
      have step := scan_word 0 (rest.dropWhile isScanChar) after drop stop
      rw [if_pos ⟨rfl, letter⟩, (takeWhile_stop apart).1, (takeWhile_stop apart).2, step]
      simp [pieces, scan_cons, scanStep_plain plain, letter, RawSqlAnalysis.add]
    · have step := scan_word depth rest after later stop
      rw [if_neg start, empty_add, step]
      by_cases outside : depth = 0
      · have letter : isScanStart c = false := by simpa [outside] using start
        simp [outside, pieces, scan_cons, scanStep_plain plain, letter]
      · simp [outside]
termination_by word.length
decreasing_by
  all_goals
    simp only [List.length_cons]
    omega

end Words

section Drift

/-- At this place the scan reads what the database reads: the same end of a quoted part or a
comment, the same statement words, and no white space that the database does not know. -/
def sameRead (rules : Rules) (c : Char) (rest : List Char) : Bool :=
  if c ∈ rules.quotes then skipQuoted c rest = (quotedRest c rest).getD []
  else if c = '-' ∧ rest.head? = some '-' then
    skipLine rest.tail = (lineRest rules.lineEnds rest.tail).getD []
  else if c = '/' ∧ rest.head? = some '*' then
    skipBlock rest.tail = (blockRest rules.nested 0 rest.tail).getD []
  else if isWordStart c then
    let word := c :: rest.takeWhile isWordChar
    (pieces word).filter isStatementHead = [lowercase word].filter isStatementHead &&
      word.all fun c => !Text.isWhitespace c
  else decide (c ∉ quoteChars) && (isBlank c || !Text.isWhitespace c)

/-- The scan and the database never drift apart. -/
inductive Tame (rules : Rules) : List Char → Prop
  | nil : Tame rules []
  | last {c : Char} {rest : List Char} (same : sameRead rules c rest = true)
      (ends : (readToken rules c rest).2 = none) : Tame rules (c :: rest)
  | next {c : Char} {rest later : List Char} (same : sameRead rules c rest = true)
      (more : (readToken rules c rest).2 = some later) (tame : Tame rules later) : Tame rules (c :: rest)

/-- The walk along the tokens of a text, for at most `fuel` of them. -/
def isTame (rules : Rules) : Nat → List Char → Bool
  | _, [] => true
  | 0, _ => false
  | fuel + 1, c :: rest =>
    sameRead rules c rest &&
      match (readToken rules c rest).2 with
      | none => true
      | some later => isTame rules fuel later

theorem tame_of_isTame {rules : Rules} {fuel : Nat} {text : List Char}
    (walk : isTame rules fuel text = true) : Tame rules text := by
  induction fuel generalizing text with
  | zero =>
    cases text with
    | nil => exact .nil
    | cons c rest => cases walk
  | succ fuel ih =>
    cases text with
    | nil => exact .nil
    | cons c rest =>
      rw [isTame, Bool.and_eq_true] at walk
      cases more : (readToken rules c rest).2 with
      | none => exact .last walk.1 more
      | some later =>
        rw [more] at walk
        exact .next walk.1 more (ih walk.2)

def topDepth (depth : Nat) (token : Option Token) : Nat := token.elim depth (Token.depth depth)

def headWords (depth : Nat) (token : Option Token) : List String :=
  (token.elim [] (Token.topWord depth)).filter isStatementHead

theorem scan_step {depth depth' : Nat} {c : Char} {rest later : List Char} {found : RawSqlAnalysis}
    (step : scanStep depth c rest = (found, depth', later)) :
    scan depth (c :: rest) = found.add (scan depth' later) := by
  rw [scan_cons, step]

/-- One token of the database is what the scan finds in some rounds. -/
theorem scan_read {rules : Rules} (known : ∀ q ∈ rules.quotes, q ∈ quoteChars) {c : Char}
    {rest : List Char} (same : sameRead rules c rest = true) (depth : Nat) :
    ∃ found : RawSqlAnalysis,
      scan depth (c :: rest) = found.add
        (scan (topDepth depth (readToken rules c rest).1) ((readToken rules c rest).2.getD [])) ∧
      found.topLevelWords.filter isStatementHead = headWords depth (readToken rules c rest).1 ∧
      ((readToken rules c rest).1 = some .semicolon → depth = 0 → found.statementSeparators = 0 →
        ∀ later ∈ rest, Text.isWhitespace later = true ∨ later = ';') := by
  unfold sameRead at same
  by_cases quote : c ∈ rules.quotes
  · have reads : readToken rules c rest = (some .quoted, quotedRest c rest) := if_pos quote
    rw [if_pos quote] at same
    have step : scanStep depth c rest = (.empty, depth, (quotedRest c rest).getD []) := by
      rw [scanStep, if_pos (known c quote), of_decide_eq_true same]
    exact ⟨.empty, by rw [scan_step step, reads]; rfl, by rw [reads]; rfl, by simp [reads]⟩
  rw [if_neg quote] at same
  by_cases line : c = '-' ∧ rest.head? = some '-'
  · have reads : readToken rules c rest = (none, lineRest rules.lineEnds rest.tail) := by
      rw [readToken, if_neg quote, if_pos line]
    have plain : c ∉ quoteChars := by rw [line.1]; decide
    rw [if_pos line] at same
    have step : scanStep depth c rest = (.empty, depth, (lineRest rules.lineEnds rest.tail).getD []) := by
      rw [scanStep, if_neg plain, if_pos line, of_decide_eq_true same]
    exact ⟨.empty, by rw [scan_step step, reads]; rfl, by rw [reads]; rfl, by simp [reads]⟩
  rw [if_neg line] at same
  by_cases block : c = '/' ∧ rest.head? = some '*'
  · have reads : readToken rules c rest = (none, blockRest rules.nested 0 rest.tail) := by
      rw [readToken, if_neg quote, if_neg line, if_pos block]
    have plain : c ∉ quoteChars := by rw [block.1]; decide
    rw [if_pos block] at same
    have step : scanStep depth c rest =
        (.empty, depth, (blockRest rules.nested 0 rest.tail).getD []) := by
      rw [scanStep, if_neg plain, if_neg line, if_pos block, of_decide_eq_true same]
    exact ⟨.empty, by rw [scan_step step, reads]; rfl, by rw [reads]; rfl, by simp [reads]⟩
  rw [if_neg block] at same
  have reads := readToken_plain quote line block
  by_cases opening : c = '('
  · subst opening
    have step : scanStep depth '(' rest = (.empty, depth + 1, rest) := by
      simp [scanStep, quoteChars]
    exact ⟨.empty, by rw [scan_step step, reads]; rfl, by rw [reads]; rfl, by simp [reads]⟩
  by_cases closing : c = ')'
  · subst closing
    have step : scanStep depth ')' rest = (.empty, depth - 1, rest) := by
      simp [scanStep, quoteChars]
    exact ⟨.empty, by rw [scan_step step, reads]; rfl, by rw [reads]; rfl, by simp [reads]⟩
  by_cases semicolon : c = ';'
  · subst semicolon
    by_cases outside : depth = 0
    · have step : scanStep depth ';' rest = (⟨[], if rest.any fun later =>
          !Text.isWhitespace later && later != ';' then 1 else 0⟩, depth, rest) := by
        simp [scanStep, quoteChars, outside]
      refine ⟨_, by rw [scan_step step, reads]; rfl, by rw [reads]; simp [headWords, Token.topWord], ?_⟩
      intro _ _ none later member
      simp only [ite_eq_right_iff, Nat.one_ne_zero, imp_false] at none
      by_cases blank : Text.isWhitespace later = true
      · exact .inl blank
      · by_cases other : later = ';'
        · exact .inr other
        · exact absurd (List.any_eq_true.mpr ⟨later, member, by simp [blank, other]⟩) none
    · have step : scanStep depth ';' rest = (.empty, depth, rest) := by
        simp [scanStep, quoteChars, outside]
      refine ⟨.empty, by rw [scan_step step, reads]; rfl, by rw [reads]; rfl, ?_⟩
      exact fun _ inside => absurd inside outside
  rw [if_neg opening, if_neg closing, if_neg semicolon] at reads
  by_cases word : isWordStart c = true
  · rw [if_pos word] at reads same
    have whole : c :: rest = (c :: rest.takeWhile isWordChar) ++ rest.dropWhile isWordChar := by
      rw [List.cons_append, List.takeWhile_append_dropWhile]
    have all : ∀ d ∈ c :: rest.takeWhile isWordChar, isWordChar d = true := by
      intro d member
      rcases List.mem_cons.mp member with rfl | inner
      · simp [isWordChar, word]
      · exact List.mem_takeWhile_imp inner
    have stop : ∀ d ∈ (rest.dropWhile isWordChar).head?, isWordChar d = false := by
      intro d head
      have first := List.head?_dropWhile_not isWordChar rest
      rw [Option.mem_def.mp head] at first
      simpa using first
    have heads := (Bool.and_eq_true _ _ ▸ same).1
    refine ⟨⟨if depth = 0 then pieces (c :: rest.takeWhile isWordChar) else [], 0⟩, ?_, ?_, by simp [reads]⟩
    · conv_lhs => rw [whole]
      rw [scan_word depth _ _ all stop, reads]
      rfl
    · rw [reads]
      by_cases outside : depth = 0
      · simpa [headWords, Token.topWord, outside] using of_decide_eq_true heads
      · simp [headWords, Token.topWord, outside]
  · rw [if_neg word] at reads same
    have plain : c ∉ quoteChars := of_decide_eq_true (Bool.and_eq_true _ _ ▸ same).1
    have letter : isScanStart c = false := by
      simp only [isWordStart, isScanStart, Bool.not_eq_true, Bool.or_eq_false_iff] at word ⊢
      exact word.1
    have step : scanStep depth c rest = (.empty, depth, rest) := by
      rw [scanStep, if_neg plain, if_neg line, if_neg block, if_neg opening, if_neg closing,
        if_neg fun both => semicolon both.1, if_neg (by simp [letter])]
    by_cases blank : isBlank c = true
    · rw [if_pos blank] at reads
      exact ⟨.empty, by rw [scan_step step, reads]; rfl, by rw [reads]; rfl, by simp [reads]⟩
    · rw [if_neg blank] at reads
      exact ⟨.empty, by rw [scan_step step, reads]; rfl, by rw [reads]; rfl, by simp [reads]⟩

variable {rules : Rules} {text : List Char}

theorem read_filler (known : ∀ q ∈ rules.quotes, q ∈ quoteChars) {c : Char} {rest : List Char}
    (same : sameRead rules c rest = true) (filler : Text.isWhitespace c = true ∨ c = ';') :
    readToken rules c rest = (if c = ';' then some .semicolon else none, some rest) := by
  have other (d : Char) (solid : Text.isWhitespace d = false) (different : d ≠ ';') : c ≠ d := by
    rintro rfl
    rcases filler with blank | same
    · rw [solid] at blank
      cases blank
    · exact different same
  have plain : c ∉ quoteChars := by
    intro member
    simp only [quoteChars, List.mem_cons, List.not_mem_nil, or_false] at member
    rcases member with quote | quote | quote
    · exact other '\'' rfl (by decide) quote
    · exact other '"' rfl (by decide) quote
    · exact other '\x60' rfl (by decide) quote
  have quote : c ∉ rules.quotes := fun member => plain (known c member)
  have line : ¬(c = '-' ∧ rest.head? = some '-') := fun both => other '-' rfl (by decide) both.1
  have block : ¬(c = '/' ∧ rest.head? = some '*') := fun both => other '/' rfl (by decide) both.1
  rw [readToken_plain quote line block, if_neg (other '(' rfl (by decide)),
    if_neg (other ')' rfl (by decide))]
  by_cases semicolon : c = ';'
  · rw [if_pos semicolon, if_pos semicolon]
  · have blank := filler.resolve_right semicolon
    rw [sameRead, if_neg quote, if_neg line, if_neg block] at same
    rw [if_neg semicolon, if_neg semicolon]
    by_cases word : isWordStart c = true
    · rw [if_pos word] at same
      simp [blank] at same
    · rw [if_neg word] at same
      have known : isBlank c = true := by simpa [blank, plain] using same
      rw [if_neg word, if_pos known]

/-- White space and semicolons are read as semicolons. -/
theorem lex_filler (known : ∀ q ∈ rules.quotes, q ∈ quoteChars) (tame : Tame rules text)
    (filler : ∀ c ∈ text, Text.isWhitespace c = true ∨ c = ';') :
    ∀ token ∈ (lex rules text).tokens, token = .semicolon := by
  induction tame with
  | nil => exact fun _ member => nomatch member
  | @last c rest same ends =>
    rw [read_filler known same (filler c List.mem_cons_self)] at ends
    cases ends
  | @next c rest later same more tame ih =>
    have reads := read_filler known same (filler c List.mem_cons_self)
    obtain rfl : rest = later := by
      rw [reads] at more
      exact Option.some.inj more
    intro token member
    rw [lex_cons, reads] at member
    rcases List.mem_append.mp member with first | deeper
    · by_cases semicolon : c = ';'
      · simpa [semicolon] using first
      · simp [semicolon] at first
    · exact ih (fun d inside => filler d (List.mem_cons_of_mem _ inside)) token deeper

theorem topWords_token (depth : Nat) (token : Option Token) (tokens : List Token) :
    topWords depth (token.toList ++ tokens) =
      token.elim [] (Token.topWord depth) ++ topWords (topDepth depth token) tokens := by
  cases token <;> rfl

theorem topSemicolons_token {depth : Nat} {token : Option Token} {tokens : List Token} :
    TopSemicolons depth (token.toList ++ tokens) ↔
      (token = some .semicolon → depth = 0 → ∀ later ∈ tokens, later = .semicolon) ∧
        TopSemicolons (topDepth depth token) tokens := by
  cases token with
  | none => simp [topDepth]
  | some token => simp [topDepth, TopSemicolons]

/-- Where they do not drift apart, the scan finds the statement words of the database, and no
separator only if a semicolon outside the parentheses ends the text. -/
theorem scan_lex (known : ∀ q ∈ rules.quotes, q ∈ quoteChars) (tame : Tame rules text) (depth : Nat) :
    (scan depth text).topLevelWords.filter isStatementHead =
        (topWords depth (lex rules text).tokens).filter isStatementHead ∧
      ((scan depth text).statementSeparators = 0 → TopSemicolons depth (lex rules text).tokens) := by
  induction tame generalizing depth with
  | nil => exact ⟨rfl, fun _ => trivial⟩
  | @last c rest same ends =>
    obtain ⟨found, step, words, _⟩ := scan_read known same depth
    have single : (readToken rules c rest).1.toList = (readToken rules c rest).1.toList ++ [] :=
      (List.append_nil _).symm
    rw [lex_cons, ends]
    rw [ends, Option.getD_none, scan_nil, add_empty] at step
    rw [step, words]
    simp only
    rw [single, topWords_token, topSemicolons_token]
    refine ⟨?_, fun _ => ⟨fun _ _ => by simp, trivial⟩⟩
    simp [topWords, headWords]
  | @next c rest later same more tame ih =>
    obtain ⟨found, step, words, separators⟩ := scan_read known same depth
    rw [lex_cons, more]
    rw [more, Option.getD_some] at step
    have tail := ih (topDepth depth (readToken rules c rest).1)
    rw [step]
    simp only [Reading.after, RawSqlAnalysis.add]
    rw [topWords_token, topSemicolons_token, List.filter_append, List.filter_append, words, tail.1]
    refine ⟨rfl, fun none => ⟨fun token outside => ?_, tail.2 (by omega)⟩⟩
    have whole : rest = later := Option.some.inj ((readToken_semicolon token).symm.trans more)
    exact lex_filler known tame (whole ▸ separators token outside (by omega))

end Drift

section Trimming

theorem blank_plain {c : Char} (blank : Text.isWhitespace c = true) :
    c ∉ quoteChars ∧ c ≠ '-' ∧ c ≠ '/' ∧ c ≠ '(' ∧ c ≠ ')' ∧ c ≠ ';' := by
  refine ⟨?_, ?_, ?_, ?_, ?_, ?_⟩
  · intro member
    simp only [quoteChars, List.mem_cons, List.not_mem_nil, or_false] at member
    rcases member with rfl | rfl | rfl <;> revert blank <;> decide
  all_goals
    rintro rfl
    revert blank
    decide

theorem blank_scanChar {c : Char} (blank : Text.isWhitespace c = true) : isScanChar c = false := by
  simp only [Text.isWhitespace, Bool.or_eq_true, decide_eq_true_eq, Bool.and_eq_true] at blank
  have code : c.val.toNat = c.toNat := rfl
  have score : '_'.toNat = 95 := rfl
  simp only [isScanChar, Char.isAlphanum, Identifiers.isAlpha_eq, Identifiers.isUpper_eq, Identifiers.isLower_eq, Char.isDigit,
    Bool.or_eq_false_iff, Bool.and_eq_false_iff, decide_eq_false_iff_not, beq_eq_false_iff_ne, ge_iff_le,
    UInt32.le_iff_toNat_le, Char.reduceVal, UInt32.reduceToNat, code, ne_eq, ← Char.toNat_inj]
  omega

theorem blank_scanStart {c : Char} (blank : Text.isWhitespace c = true) : isScanStart c = false := by
  have kind := blank_scanChar blank
  simp only [isScanChar, isScanStart, Char.isAlphanum, Bool.or_eq_false_iff] at kind ⊢
  exact ⟨kind.1.1, kind.2⟩

theorem scan_leading {before : List Char} (blank : ∀ c ∈ before, Text.isWhitespace c = true)
    (depth : Nat) (text : List Char) : scan depth (before ++ text) = scan depth text := by
  induction before with
  | nil => rfl
  | cons c rest ih =>
    have here := blank c List.mem_cons_self
    rw [List.cons_append, scan_cons, scanStep_plain (blank_plain here),
      if_neg (by simp [blank_scanStart here]), empty_add]
    exact ih fun d member => blank d (List.mem_cons_of_mem _ member)

/-- Of more text at the end, a step leaves a part of it at the end. -/
def Leaves (more : List Char) (rest rest' : List Char) : Prop :=
  ∃ kept, kept <:+ more ∧ rest' = rest ++ kept

theorem leaves_all (more rest : List Char) : Leaves more rest (rest ++ more) :=
  ⟨more, List.suffix_refl _, rfl⟩

theorem leaves_suffix {more rest : List Char} (suffix : rest <:+ more) : Leaves more [] rest :=
  ⟨rest, suffix, rfl⟩

theorem skipQuoted_cons (quote c : Char) (more : List Char) : skipQuoted quote (c :: more) <:+ more := by
  cases more with
  | nil => exact List.nil_suffix
  | cons d rest =>
    rw [skipQuoted]
    split
    · split
      · exact (skipQuoted_suffix _ _).trans (List.suffix_cons _ _)
      · exact List.suffix_refl _
    · split
      · exact (skipQuoted_suffix _ _).trans (List.suffix_cons _ _)
      · exact skipQuoted_suffix _ _

theorem skipQuoted_leaves (quote : Char) (more text : List Char) :
    Leaves more (skipQuoted quote text) (skipQuoted quote (text ++ more)) := by
  fun_induction skipQuoted quote text with
  | case1 => exact leaves_suffix (skipQuoted_suffix quote more)
  | case2 c => exact leaves_suffix (skipQuoted_cons quote c more)
  | case3 rest ih => simpa [skipQuoted] using ih
  | case4 d rest here => simpa [skipQuoted, here] using leaves_all more (d :: rest)
  | case5 d rest here ih => simpa [skipQuoted, here] using ih
  | case6 c d rest here slash ih => simpa [skipQuoted, here, slash] using ih

theorem skipLine_leaves (more text : List Char) :
    Leaves more (skipLine text) (skipLine (text ++ more)) := by
  induction text with
  | nil => exact leaves_suffix (List.dropWhile_suffix _)
  | cons c rest ih =>
    by_cases here : c = '\n'
    · simpa [skipLine, here] using leaves_all more (c :: rest)
    · simpa [skipLine, here] using ih

theorem skipBlock_cons (c : Char) (more : List Char) : skipBlock (c :: more) <:+ more := by
  cases more with
  | nil => exact List.nil_suffix
  | cons d rest =>
    rw [skipBlock]
    split
    · exact List.suffix_cons _ _
    · exact skipBlock_suffix _

theorem skipBlock_leaves (more text : List Char) :
    Leaves more (skipBlock text) (skipBlock (text ++ more)) := by
  fun_induction skipBlock text with
  | case1 => exact leaves_suffix (skipBlock_suffix more)
  | case2 c => exact leaves_suffix (skipBlock_cons c more)
  | case3 c d rest here => simpa [skipBlock, here] using leaves_all more rest
  | case4 c d rest here ih => simpa [skipBlock, here] using ih

theorem scanStep_trailing {more : List Char} (blank : ∀ c ∈ more, Text.isWhitespace c = true)
    (depth : Nat) (c : Char) (rest : List Char) :
    (scanStep depth c (rest ++ more)).1 = (scanStep depth c rest).1 ∧
      (scanStep depth c (rest ++ more)).2.1 = (scanStep depth c rest).2.1 ∧
      Leaves more (scanStep depth c rest).2.2 (scanStep depth c (rest ++ more)).2.2 := by
  have head (e : Char) (solid : Text.isWhitespace e = false) :
      (rest ++ more).head? = some e ↔ rest.head? = some e := by
    cases rest with
    | cons d rest => simp
    | nil =>
      cases more with
      | nil => simp
      | cons d more =>
        have here := blank d List.mem_cons_self
        simp only [List.nil_append, List.head?_cons, Option.some.injEq, List.head?_nil, reduceCtorEq, iff_false]
        rintro rfl
        rw [solid] at here
        cases here
  have tail (e : Char) (here : rest.head? = some e) : (rest ++ more).tail = rest.tail ++ more := by
    cases rest with
    | nil => cases here
    | cons => rfl
  have filler : (more.any fun later => !Text.isWhitespace later && later != ';') = false := by
    simp only [List.any_eq_false, Bool.and_eq_true, Bool.not_eq_true', not_and]
    exact fun d member solid => absurd (blank d member) (by simp [solid])
  have stop : ∀ d ∈ more.head?, isScanChar d = false := fun d member =>
    blank_scanChar (blank d (List.mem_of_mem_head? member))
  unfold scanStep
  simp only [head '-' rfl, head '*' rfl, List.any_append, filler, Bool.or_false, (takeWhile_stop stop).1,
    (takeWhile_stop stop).2]
  split
  · exact ⟨rfl, rfl, skipQuoted_leaves c more rest⟩
  split
  · next line =>
    rw [tail _ line.2]
    exact ⟨rfl, rfl, skipLine_leaves more _⟩
  split
  · next block =>
    rw [tail _ block.2]
    exact ⟨rfl, rfl, skipBlock_leaves more _⟩
  repeat' split
  all_goals exact ⟨rfl, rfl, leaves_all more _⟩

theorem scan_trailing {more : List Char} (blank : ∀ c ∈ more, Text.isWhitespace c = true)
    (depth : Nat) (text : List Char) : scan depth (text ++ more) = scan depth text := by
  match text with
  | [] =>
    have alone := scan_leading blank depth []
    rwa [List.append_nil] at alone
  | c :: rest =>
    obtain ⟨found, same, kept, suffix, left⟩ := scanStep_trailing blank depth c rest
    have shorter := (scanStep_suffix depth c rest).length_le
    have step := scan_trailing (fun d member => blank d (suffix.subset member))
      (scanStep depth c rest).2.1 (scanStep depth c rest).2.2
    rw [List.cons_append, scan_cons, scan_cons depth c rest, found, same, left, step]
termination_by text.length
decreasing_by
  simp only [List.length_cons]
  omega

/-- The scan of a text is that of the text without white space around it. -/
theorem scan_trim (depth : Nat) (sql : String) :
    scan depth (Text.trim sql).toList = scan depth sql.toList := by
  obtain ⟨before, after, whole, first, last⟩ := Text.trim_split sql
  rw [whole, scan_leading first, scan_trailing last]

end Trimming

section Reading

/-- Names are quoted by double quotes or backticks; comments end at a line feed. -/
def sqlite : Rules := ⟨['\'', '"', '\x60'], ['\n'], false⟩

/-- Strings are standard strings; a carriage return ends a line too, and block comments nest. -/
def postgres : Rules := ⟨['\'', '"'], ['\n', '\r'], true⟩

/-- The keyword of a statement; behind WITH, the one that the table expressions lead to. -/
def statementKeyword (tokens : List Token) : Option String :=
  match tokens with
  | .word first :: _ =>
    if first = "with" then (topWords 0 tokens).find? isStatementHead else some first
  | _ => none

/-- No common table expression starts with a keyword that changes data. -/
def ExpressionsRead (tokens : List Token) : Prop :=
  ∀ before start head after, tokens = before ++ .word start :: .opening :: .word head :: after →
    start = "as" ∨ start = "materialized" → head ∉ ["insert", "update", "delete", "replace"]

structure OneRead (tokens : List Token) : Prop where
  single : SemicolonLast tokens
  keyword : statementKeyword tokens = some "select"
  expressions : ExpressionsRead tokens

/-- What the guard leaves to the text. -/
structure Ordinary (tokens : List Token) : Prop where
  semicolons : LoneSemicolons 0 tokens
  start : tokens.head? = some (.word "select") ∨ tokens.head? = some (.word "with")
  expressions : ExpressionsRead tokens

/-- Postgres reads the closing parenthesis and the alias as such behind the text. -/
def AliasOutside (sql : String) : Prop :=
  (lex postgres (queryStart ++ queryBody sql).toList).closed = true ∧
    lex postgres (postgresJsonQuery sql).toList =
      ⟨(lex postgres (queryStart ++ queryBody sql).toList).tokens ++ [.closing, .word "as", .quoted], true⟩

theorem accepted_iff {driver : AxDatabaseDriver} {sql : String} :
    validateRawSelectSql driver sql = .ok () ↔
      (scan 0 sql.toList).topLevelWords.find? isStatementHead = some "select" ∧
        (scan 0 sql.toList).statementSeparators = 0 := by
  rw [validateRawSelectSql, analyzeRawSql, scan_trim]
  generalize scan 0 sql.toList = analysis
  by_cases select : analysis.topLevelWords.find? isStatementHead = some "select"
  · by_cases none : analysis.statementSeparators = 0 <;> simp [select, none, Nat.pos_iff_ne_zero]
  · simp [select]

theorem accepted_reads {rules : Rules} (known : ∀ q ∈ rules.quotes, q ∈ quoteChars)
    {driver : AxDatabaseDriver} {sql : String} (accepted : validateRawSelectSql driver sql = .ok ())
    (tame : Tame rules sql.toList) :
    OneRead (lex rules sql.toList).tokens ↔ Ordinary (lex rules sql.toList).tokens := by
  obtain ⟨select, none⟩ := accepted_iff.mp accepted
  obtain ⟨words, top⟩ := scan_lex known tame 0
  have lead : (topWords 0 (lex rules sql.toList).tokens).find? isStatementHead = some "select" := by
    rw [← List.head?_filter, ← words, List.head?_filter, select]
  have single := semicolonLast_iff (top none)
  have keyword : statementKeyword (lex rules sql.toList).tokens = some "select" ↔
      (lex rules sql.toList).tokens.head? = some (.word "select") ∨
        (lex rules sql.toList).tokens.head? = some (.word "with") := by
    generalize (lex rules sql.toList).tokens = tokens at lead
    cases tokens with
    | nil => simp [statementKeyword]
    | cons token rest =>
      cases token with
      | word first =>
        by_cases leads : first = "with"
        · simp [statementKeyword, leads, ← lead]
        · simp [statementKeyword, leads]
      | _ => simp [statementKeyword]
  exact ⟨fun one => ⟨single.mp one.single, keyword.mp one.keyword, one.expressions⟩,
    fun plain => ⟨single.mpr plain.semicolons, keyword.mpr plain.start, plain.expressions⟩⟩

/-- How the texts that stand around the body of a query are read. -/
theorem query_read :
    (lex postgres queryStart.toList.dropLast).closed = true ∧
    lex postgres (')' :: queryFinish.toList.tail) = ⟨[.closing, .word "as", .quoted], true⟩ := by
  decide +kernel

theorem start_closed (body : String) :
    (lex postgres (queryStart ++ body).toList).closed = (lex postgres body.toList).closed := by
  have apart : Separate postgres '(' := ⟨by decide, by decide, by decide, by decide⟩
  have shape : (queryStart ++ body).toList = queryStart.toList.dropLast ++ '(' :: body.toList := by
    rw [String.toList_append]
    rfl
  rw [shape, lex_append apart query_read.1, lex_cons]
  rfl

theorem alias_outside_iff (sql : String) :
    AliasOutside sql ↔ (lex postgres (queryBody sql).toList).closed = true := by
  rw [← start_closed, AliasOutside]
  refine and_iff_left_of_imp fun closed => ?_
  have apart : Separate postgres ')' := ⟨by decide, by decide, by decide, by decide⟩
  have finish : queryFinish.toList = ')' :: queryFinish.toList.tail := by decide
  have whole : (postgresJsonQuery sql).toList =
      (queryStart ++ queryBody sql).toList ++ queryFinish.toList := String.toList_append
  rw [whole, finish, lex_append apart closed, query_read.2]

end Reading

end Axonyx.Runtime.RawSql
