import Axonyx.Grammar
import Axonyx.Lexis
import Axonyx.Template

/-! The tokens of an SQL text, and the tokens of a template: what a lexer finds in the text
that the template renders. The lexer knows words, quoted names, numbers, placeholders and a few
symbols; on any other character it gives up. -/
namespace SqlText

open Template (Style Piece render holes names)
open Lexis (isBlank isWordStart isWordChar lowercase)

inductive Tok (V : Type) where
  | word (text : String)
  | name (name : String)
  | number (n : Nat)
  | mark (value : V)
  | symbol (text : String)
  deriving DecidableEq, Repr

/-- In the text itself a placeholder has a number, or none. -/
abbrev Raw := Tok (Option Nat)

section Lexer

inductive Mode where
  | plain
  | word (seen : List Char)
  | number (seen : List Char)
  | quoted (seen : List Char)
  /-- Behind a quote that ends a name, unless another one follows. -/
  | closed (seen : List Char)
  | mark (seen : List Char)
  | bang
  deriving DecidableEq, Repr

def symbols : List Char := ['*', '.', ',', '(', ')', '=']

def natOf (digits : List Char) : Nat := digits.foldl (fun n c => n * 10 + (c.toNat - 48)) 0

variable (style : Style)

def openToken (c : Char) : Option (List Raw × Mode) :=
  if c = style.quote then some ([], .quoted [])
  else if isBlank c then some ([], .plain)
  else if isWordStart c then some ([], .word [c])
  else if c.isDigit then some ([], .number [c])
  else if c = '$' ∧ style.numbered = true then some ([], .mark [])
  else if c = '?' ∧ style.numbered = false then some ([.mark none], .plain)
  else if c = '!' then some ([], .bang)
  else if c ∈ symbols then some ([.symbol (String.singleton c)], .plain)
  else none

/-- The tokens that are complete if the text ends here. -/
def Mode.flush : Mode → Option (List Raw)
  | .plain => some []
  | .word seen => some [.word (lowercase seen)]
  | .number seen => some [.number (natOf seen)]
  | .closed seen => some [.name (.ofList seen)]
  | .mark (digit :: digits) => some [.mark (some (natOf (digit :: digits)))]
  | .mark [] | .quoted _ | .bang => none

def startNext (mode : Mode) (c : Char) : Option (List Raw × Mode) := do
  let done ← mode.flush
  let (first, next) ← openToken style c
  return (done ++ first, next)

def step : Mode → Char → Option (List Raw × Mode)
  | .plain, c => openToken style c
  | .word seen, c => if isWordChar c then some ([], .word (seen ++ [c])) else startNext style (.word seen) c
  | .number seen, c =>
    if c.isDigit then some ([], .number (seen ++ [c]))
    else if isWordChar c || c == '.' then none
    else startNext style (.number seen) c
  | .quoted seen, c =>
    if c = style.quote then some ([], .closed seen) else some ([], .quoted (seen ++ [c]))
  | .closed seen, c =>
    if c = style.quote then some ([], .quoted (seen ++ [c])) else startNext style (.closed seen) c
  | .mark seen, c =>
    if c.isDigit then some ([], .mark (seen ++ [c]))
    else if isWordChar c || c == '.' then none
    else startNext style (.mark seen) c
  | .bang, c => if c = '=' then some ([.symbol "!="], .plain) else none

def run : Mode → List Char → Option (List Raw × Mode)
  | mode, [] => some ([], mode)
  | mode, c :: rest => do
    let (first, next) ← step style mode c
    let (later, last) ← run next rest
    return (first ++ later, last)

def lex (text : String) : Option (List Raw) := do
  let (tokens, mode) ← run style .plain text.toList
  let last ← mode.flush
  return tokens ++ last

/-- Reading on from where a text ends. -/
theorem run_append {mode mode' : Mode} {a : List Char} {first : List Raw}
    (front : run style mode a = some (first, mode')) (b : List Char) :
    run style mode (a ++ b) = (run style mode' b).map fun later => (first ++ later.1, later.2) := by
  induction a generalizing mode first with
  | nil =>
    cases front
    simp
  | cons c rest ih =>
    rw [run] at front
    obtain ⟨⟨here, next⟩, stepped, front⟩ := Option.bind_eq_some_iff.mp front
    obtain ⟨⟨later, last⟩, tail, front⟩ := Option.bind_eq_some_iff.mp front
    cases front
    rw [List.cons_append, run, stepped]
    have more := ih tail
    simp only [Option.bind_eq_bind, Option.bind_some, more]
    cases run style mode' b <;> simp

end Lexer

section Placeholders

variable {V : Type}

def marks : List (Tok V) → List V
  | [] => []
  | .mark value :: rest => value :: marks rest
  | .word _ :: rest | .name _ :: rest | .number _ :: rest | .symbol _ :: rest => marks rest

/-- The tokens as they stand in the text, the placeholders numbered from `index`. -/
def numberMarks (style : Style) : Nat → List (Tok V) → List Raw
  | _, [] => []
  | index, .mark _ :: rest =>
    .mark (if style.numbered then some index else none) :: numberMarks style (index + 1) rest
  | index, .word text :: rest => .word text :: numberMarks style index rest
  | index, .name name :: rest => .name name :: numberMarks style index rest
  | index, .number n :: rest => .number n :: numberMarks style index rest
  | index, .symbol text :: rest => .symbol text :: numberMarks style index rest

/-- The value of each placeholder: of the given number, or the next one in the row. -/
def bindMarks (values : List V) : Nat → List Raw → Option (List (Tok V))
  | _, [] => some []
  | next, .mark index :: rest => do
    let value ← values[index.getD next - 1]?
    let later ← bindMarks values (next + 1) rest
    return .mark value :: later
  | next, .word text :: rest => (bindMarks values next rest).map (.word text :: ·)
  | next, .name name :: rest => (bindMarks values next rest).map (.name name :: ·)
  | next, .number n :: rest => (bindMarks values next rest).map (.number n :: ·)
  | next, .symbol text :: rest => (bindMarks values next rest).map (.symbol text :: ·)

variable {style : Style}

theorem marks_append (a b : List (Tok V)) : marks (a ++ b) = marks a ++ marks b := by
  induction a with
  | nil => rfl
  | cons token rest ih => cases token <;> simp [marks, ih]

theorem numberMarks_append (index : Nat) (a b : List (Tok V)) :
    numberMarks style index (a ++ b) =
      numberMarks style index a ++ numberMarks style (index + (marks a).length) b := by
  induction a generalizing index with
  | nil => rfl
  | cons token rest ih =>
    cases token with
    | mark value =>
      simp only [List.cons_append, numberMarks, ih, marks, List.length_cons]
      rw [Nat.add_assoc, Nat.add_comm 1]
    | _ => simp [numberMarks, ih, marks]

theorem numberMarks_static {tokens : List (Tok V)} (static : marks tokens = []) (i j : Nat) :
    numberMarks style i tokens = numberMarks style j tokens := by
  induction tokens with
  | nil => rfl
  | cons token rest ih =>
    cases token with
    | mark value => cases static
    | _ => simp [numberMarks, ih static]

theorem bindMarks_numberMarks {tokens : List (Tok V)} {values : List V} {index : Nat}
    (rest : values.drop index = marks tokens) :
    bindMarks values (index + 1) (numberMarks style (index + 1) tokens) = some tokens := by
  induction tokens generalizing index with
  | nil => rfl
  | cons token later ih =>
    cases token with
    | mark value =>
      rw [marks] at rest
      have here : values[index]? = some value := by
        rw [← List.head?_drop, rest]
        rfl
      have tail : values.drop (index + 1) = marks later := by
        rw [← List.tail_drop, rest]
        rfl
      have selected : (if style.numbered then some (index + 1) else none : Option Nat).getD (index + 1) =
          index + 1 := by cases style.numbered <;> rfl
      simp only [numberMarks, bindMarks, selected, Nat.add_sub_cancel, here, ih tail]
      rfl
    | _ => simp only [numberMarks, bindMarks, ih rest]; rfl

end Placeholders

section Templates

variable {V : Type} (style : Style)

/-- Characters that end a word, a name, a number or a placeholder. -/
def breaks : List Char := [' ', ',', '(', ')']

/-- The token in progress may end here; `dot` tells whether a dot ends it, too. -/
inductive Settled : Mode → List Raw → Bool → Prop
  | plain : Settled .plain [] true
  | word (seen : List Char) : Settled (.word seen) [.word (lowercase seen)] false
  | number (seen : List Char) : Settled (.number seen) [.number (natOf seen)] false
  | closed (seen : List Char) : Settled (.closed seen) [.name (.ofList seen)] true
  | mark (digit : Char) (digits : List Char) :
      Settled (.mark (digit :: digits)) [.mark (some (natOf (digit :: digits)))] false

theorem Settled.flush {mode : Mode} {pending : List Raw} {dot : Bool}
    (settled : Settled mode pending dot) : mode.flush = some pending := by
  cases settled <;> rfl

theorem Settled.step {mode : Mode} {pending : List Raw} {dot : Bool}
    (settled : Settled mode pending dot) (quote : style.quote = '"' ∨ style.quote = '\x60') {c : Char}
    (ends : c ∈ breaks ∨ (dot = true ∧ c = '.')) :
    step style mode c = (openToken style c).map fun next => (pending ++ next.1, next.2) := by
  have plain : c ≠ style.quote ∧ isWordChar c = false ∧ c.isDigit = false := by
    have other : c ∈ ['.', ' ', ',', '(', ')'] := by
      rcases ends with among | ⟨_, rfl⟩
      · exact List.mem_cons_of_mem _ among
      · exact List.mem_cons_self
    simp only [List.mem_cons, List.not_mem_nil, or_false] at other
    rcases quote with same | same <;> rw [same] <;>
      rcases other with rfl | rfl | rfl | rfl | rfl <;> decide
  have started (flushed : mode.flush = some pending) :
      startNext style mode c = (openToken style c).map fun next => (pending ++ next.1, next.2) := by
    rw [startNext, flushed]
    cases openToken style c <;> rfl
  have dotted (undotted : dot = false) : (c == '.') = false := by
    rcases ends with among | ⟨here, _⟩
    · simp only [breaks, List.mem_cons, List.not_mem_nil, or_false] at among
      rcases among with rfl | rfl | rfl | rfl <;> decide
    · rw [undotted] at here
      cases here
  cases settled with
  | plain =>
    rw [SqlText.step]
    cases openToken style c <;> rfl
  | word seen => rw [SqlText.step, plain.2.1]; exact started rfl
  | closed seen => rw [SqlText.step, if_neg plain.1]; exact started rfl
  | number seen => rw [SqlText.step, plain.2.2, plain.2.1, dotted rfl]; exact started rfl
  | mark digit digits => rw [SqlText.step, plain.2.2, plain.2.1, dotted rfl]; exact started rfl

/-- A text of which the lexer has found these tokens when the text ends. -/
def Finds (mode : Mode) (text : List Char) (tokens : List Raw) : Prop :=
  ∃ found last pending dot, run style mode text = some (found, last) ∧ Settled last pending dot ∧
    found ++ pending = tokens

/-- The template has these tokens where a token can start. -/
structure Reads (template : List (Piece V)) (tokens : List (Tok V)) : Prop where
  values : marks tokens = holes template
  finds : ∀ index, Finds style .plain (render style index template).toList
    (numberMarks style index tokens)

/-- The template has these tokens behind any token; with `dot` set, behind a name. -/
structure Follows (dot : Bool) (template : List (Piece V)) (tokens : List (Tok V)) : Prop where
  values : marks tokens = holes template
  finds : ∀ index mode pending allowed, Settled mode pending allowed →
    (dot = true → allowed = true) → Finds style mode (render style index template).toList
      (pending ++ numberMarks style index tokens)

/-- A fixed text, which ends where a token can start. -/
structure Opens (text : String) (tokens : List (Tok V)) : Prop where
  static : marks tokens = []
  ran : run style .plain text.toList = some (numberMarks style 0 tokens, .plain)

/-- The text begins with a character that ends the token before it. -/
def Breaks (dot : Bool) (text : String) : Prop :=
  ∃ c rest, text.toList = c :: rest ∧ (c ∈ breaks ∨ (dot = true ∧ c = '.'))

variable {style} {template other : List (Piece V)} {tokens others : List (Tok V)} {dot : Bool}

theorem Reads.lex (reads : Reads style template tokens) (index : Nat) :
    lex style (render style index template) = some (numberMarks style index tokens) := by
  obtain ⟨found, last, pending, dot, ran, settled, same⟩ := reads.finds index
  rw [SqlText.lex, ran]
  simp [settled.flush, same]

theorem Follows.reads (follows : Follows style dot template tokens) :
    Reads style template tokens := by
  refine ⟨follows.values, fun index => ?_⟩
  simpa using follows.finds index .plain [] true .plain fun _ => rfl

theorem Follows.weaken (follows : Follows style false template tokens) :
    Follows style dot template tokens :=
  ⟨follows.values, fun index mode pending allowed settled _ =>
    follows.finds index mode pending allowed settled nofun⟩

theorem Reads.nil : Reads style ([] : List (Piece V)) [] :=
  ⟨rfl, fun _ => ⟨[], .plain, [], true, rfl, .plain, rfl⟩⟩

theorem Follows.nil : Follows style dot ([] : List (Piece V)) [] :=
  ⟨rfl, fun _ mode pending allowed settled _ => ⟨[], mode, pending, allowed, rfl, settled, by simp [numberMarks]⟩⟩

/-- A text and another one that is read on from its end. -/
theorem Finds.append {mode : Mode} {a b : List Char} {first all : List Raw}
    (finds : Finds style mode a first)
    (rest : ∀ last pending allowed found, Settled last pending allowed → found ++ pending = first →
      ∃ later, Finds style last b (pending ++ later) ∧ found ++ (pending ++ later) = all) :
    Finds style mode (a ++ b) all := by
  obtain ⟨found, last, pending, allowed, ran, settled, same⟩ := finds
  obtain ⟨later, ⟨found', last', pending', allowed', ran', settled', same'⟩, total⟩ :=
    rest last pending allowed found settled same
  refine ⟨found ++ found', last', pending', allowed', ?_, settled', ?_⟩
  · rw [run_append style ran, ran']
    rfl
  · rw [List.append_assoc, same', total]

theorem tokens_append (index : Nat) (values : marks tokens = holes template) :
    numberMarks style index (tokens ++ others) = numberMarks style index tokens ++
      numberMarks style (index + (holes template).length) others := by
  rw [numberMarks_append, values]

theorem Reads.append (first : Reads style template tokens)
    (rest : Follows style false other others) :
    Reads style (template ++ other) (tokens ++ others) := by
  refine ⟨by rw [marks_append, Template.holes_append, first.values, rest.values], fun index => ?_⟩
  rw [Template.render_append, String.toList_append, tokens_append index first.values]
  refine (first.finds index).append fun last pending allowed found settled same => ?_
  refine ⟨_, rest.finds _ last pending allowed settled nofun, ?_⟩
  rw [← List.append_assoc, same]

theorem Follows.append (first : Follows style dot template tokens)
    (rest : Follows style false other others) :
    Follows style dot (template ++ other) (tokens ++ others) := by
  refine ⟨by rw [marks_append, Template.holes_append, first.values, rest.values],
    fun index mode pending allowed settled dotted => ?_⟩
  rw [Template.render_append, String.toList_append, tokens_append index first.values]
  refine (first.finds index mode pending allowed settled dotted).append
    fun last pending' allowed' found settled' same => ?_
  refine ⟨_, rest.finds _ last pending' allowed' settled' nofun, ?_⟩
  rw [← List.append_assoc, same, List.append_assoc]

/-- In front of a break, a token in progress is complete. -/
theorem run_settled (quote : style.quote = '"' ∨ style.quote = '\x60') {mode : Mode}
    {pending : List Raw} {allowed : Bool} (settled : Settled mode pending allowed) {c : Char}
    (ends : c ∈ breaks ∨ (allowed = true ∧ c = '.')) (rest : List Char) :
    run style mode (c :: rest) =
      (run style .plain (c :: rest)).map fun found => (pending ++ found.1, found.2) := by
  rw [run, run, settled.step style quote ends, step]
  cases openToken style c with
  | none => rfl
  | some next =>
    obtain ⟨first, mode'⟩ := next
    simp only [Option.map_some, Option.bind_eq_bind, Option.bind_some]
    cases run style mode' rest <;> simp

theorem Finds.settled (quote : style.quote = '"' ∨ style.quote = '\x60') {mode : Mode}
    {pending found : List Raw} {allowed : Bool} (settled : Settled mode pending allowed)
    {c : Char} {rest : List Char} (ends : c ∈ breaks ∨ (allowed = true ∧ c = '.'))
    (finds : Finds style .plain (c :: rest) found) :
    Finds style mode (c :: rest) (pending ++ found) := by
  obtain ⟨first, last, pending', allowed', ran, settled', rfl⟩ := finds
  refine ⟨pending ++ first, last, pending', allowed', ?_, settled', List.append_assoc _ _ _⟩
  rw [run_settled quote settled ends, ran]
  rfl

/-- What reads where a token can start, and begins with a break, reads everywhere. -/
theorem Reads.follows (quote : style.quote = '"' ∨ style.quote = '\x60')
    {text : String} (starts : Breaks dot text)
    (reads : Reads style (.text text :: template) tokens) :
    Follows style dot (.text text :: template) tokens := by
  refine ⟨reads.values, fun index mode pending allowed settled dotted => ?_⟩
  obtain ⟨c, rest, shape, ends⟩ := starts
  have finds := reads.finds index
  simp only [render, String.toList_append, shape, List.cons_append] at finds ⊢
  exact Finds.settled quote settled (ends.imp id fun both => ⟨dotted both.1, both.2⟩) finds

theorem Reads.text {text : String} (opens : Opens style text tokens)
    (rest : Reads style template others) :
    Reads style (.text text :: template) (tokens ++ others) := by
  refine ⟨by rw [marks_append, opens.static, rest.values]; rfl, fun index => ?_⟩
  rw [render, String.toList_append, numberMarks_append, opens.static,
    numberMarks_static opens.static index 0]
  have first : Finds style .plain text.toList (numberMarks style 0 tokens) :=
    ⟨_, .plain, [], true, opens.ran, .plain, List.append_nil _⟩
  obtain ⟨found, last, pending, allowed, ran, settled, same⟩ := rest.finds index
  refine ⟨numberMarks style 0 tokens ++ found, last, pending, allowed, ?_, settled, ?_⟩
  · rw [run_append style opens.ran, ran]
    rfl
  · rw [List.append_assoc, same]
    rfl

theorem Reads.ending {text : String} {found pending : List Raw} {last : Mode}
    (static : marks tokens = []) (ran : run style .plain text.toList = some (found, last))
    (settled : Settled last pending dot) (same : found ++ pending = numberMarks style 0 tokens) :
    Reads style [(.text text : Piece V)] tokens := by
  refine ⟨static, fun index => ?_⟩
  rw [render, render, String.append_empty, numberMarks_static static index 0]
  exact ⟨found, last, pending, dot, ran, settled, same⟩

theorem run_quoted {name : List Char} (plain : ∀ c ∈ name, c ≠ style.quote) (seen : List Char) :
    run style (.quoted seen) (name ++ [style.quote]) = some ([], .closed (seen ++ name)) := by
  induction name generalizing seen with
  | nil => simp [run, step]
  | cons c rest ih =>
    obtain ⟨here, later⟩ := List.forall_mem_cons.mp plain
    rw [List.cons_append, run, step, if_neg here]
    simp [ih later]

theorem run_name {name : String} (plain : ∀ c ∈ name.toList, c ≠ style.quote) :
    run style .plain (style.name name).toList = some ([], .closed name.toList) := by
  have quoted := run_quoted plain []
  simp only [Style.name, String.toList_append, String.toList_singleton, List.cons_append]
  rw [run, step, openToken, if_pos rfl]
  simp [quoted]

theorem run_digits {digits : List Char} (all : ∀ c ∈ digits, c.isDigit = true) (seen : List Char) :
    run style (.number seen) digits = some ([], .number (seen ++ digits)) ∧
      run style (.mark seen) digits = some ([], .mark (seen ++ digits)) := by
  induction digits generalizing seen with
  | nil => simp [run]
  | cons c rest ih =>
    obtain ⟨here, later⟩ := List.forall_mem_cons.mp all
    simp [run, step, here, ih later]

theorem digits_cons (n : Nat) : ∃ digit digits, (toString n).toList = digit :: digits ∧
    (∀ c ∈ digit :: digits, c.isDigit = true) ∧ natOf (digit :: digits) = n := by
  obtain ⟨digit, digits, shape⟩ := List.exists_cons_of_ne_nil (Nat.toDigits_ne_nil (b := 10) (n := n))
  refine ⟨digit, digits, ?_, ?_, ?_⟩
  · rw [Nat.toString_eq_repr, Nat.toList_repr, shape]
  · rw [← shape]
    exact fun c member => Nat.isDigit_of_mem_toDigits (by decide) (by decide) member
  · rw [← shape]
    exact Text.foldl_toDigits n

theorem openToken_digit (quote : style.quote = '"' ∨ style.quote = '\x60') {c : Char}
    (digit : c.isDigit = true) : openToken style c = some ([], .number [c]) := by
  have unquoted : c ≠ style.quote := by
    rcases quote with same | same <;> rw [same] <;> rintro rfl <;> cases digit
  have visible : isBlank c = false := by
    simp only [isBlank, decide_eq_false_iff_not, List.mem_cons, List.not_mem_nil, or_false]
    rintro (rfl | rfl | rfl | rfl | rfl) <;> cases digit
  have letter : isWordStart c = false := by
    simp only [Char.isDigit, Bool.and_eq_true, decide_eq_true_eq, UInt32.le_iff_toNat_le] at digit
    have value : c.toNat = c.val.toNat := rfl
    have bounds : 48 ≤ c.toNat ∧ c.toNat ≤ 57 := by simp at digit; omega
    simp only [isWordStart, Identifiers.isAlpha_eq, Identifiers.isUpper_eq, Identifiers.isLower_eq, Bool.or_eq_false_iff,
      Bool.and_eq_false_iff, decide_eq_false_iff_not, beq_eq_false_iff_ne, UInt32.le_iff_toNat_le]
    refine ⟨⟨⟨?_, ?_⟩, ?_⟩, ?_⟩
    · have upper : 'A'.val.toNat = 65 := rfl
      omega
    · have lower : 'a'.val.toNat = 97 := rfl
      omega
    · rintro rfl
      revert bounds
      decide
    · omega
  rw [openToken, if_neg unquoted, visible, letter, digit]
  rfl

theorem run_mark (quote : style.quote = '"' ∨ style.quote = '\x60') (index : Nat) :
    Finds style .plain (style.mark index).toList
      [.mark (if style.numbered then some index else none)] := by
  unfold Style.mark
  cases numbered : style.numbered with
  | false =>
    have opens : openToken style '?' = some ([.mark none], .plain) := by
      rcases quote with same | same <;> simp [openToken, same, numbered] <;> decide
    refine ⟨[.mark none], .plain, [], true, ?_, .plain, rfl⟩
    have letters : "?".toList = ['?'] := rfl
    rw [if_neg Bool.false_ne_true, letters, run, step, opens]
    rfl
  | true =>
    have opens : openToken style '$' = some ([], .mark []) := by
      rcases quote with same | same <;> simp [openToken, same, numbered] <;> decide
    obtain ⟨digit, digits, shape, all, value⟩ := digits_cons index
    refine ⟨[], .mark (digit :: digits), _, false, ?_, .mark digit digits, ?_⟩
    · have letters : (if true = true then "$" ++ toString index else "?").toList =
          '$' :: digit :: digits := by
        rw [if_pos rfl, String.toList_append, shape]
        rfl
      rw [letters, run, step, opens]
      simp [(run_digits all []).2]
    · rw [value]
      rfl

theorem Reads.hole (quote : style.quote = '"' ∨ style.quote = '\x60') {value : V}
    (rest : Follows style false template tokens) :
    Reads style (.hole value :: template) (.mark value :: tokens) := by
  refine ⟨congrArg (value :: ·) rest.values, fun index => ?_⟩
  rw [render, String.toList_append, numberMarks]
  refine (run_mark quote index).append fun last pending allowed found settled same => ?_
  refine ⟨_, rest.finds (index + 1) last pending allowed settled (fun on => by cases on), ?_⟩
  rw [← List.append_assoc, same]
  rfl

theorem Reads.name {name : String} (plain : ∀ c ∈ name.toList, c ≠ style.quote)
    (rest : Follows style true template tokens) :
    Reads style (.name name :: template) (.name name :: tokens) := by
  refine ⟨rest.values, fun index => ?_⟩
  rw [render, String.toList_append, numberMarks]
  have found : Finds style .plain (style.name name).toList [.name name] :=
    ⟨[], _, _, true, run_name plain, .closed _, by simp⟩
  obtain ⟨later, last, pending, allowed, ran, settled, same⟩ :=
    rest.finds index _ _ true (.closed name.toList) fun _ => rfl
  refine ⟨later, last, pending, allowed, ?_, settled, ?_⟩
  · rw [run_append style (run_name plain), ran]
    rfl
  · rw [same]
    simp

theorem Reads.number (quote : style.quote = '"' ∨ style.quote = '\x60') {keyword : String} {n : Nat}
    (opens : Opens style keyword tokens) :
    Reads style [(.text (keyword ++ toString n) : Piece V)] (tokens ++ [.number n]) := by
  obtain ⟨digit, digits, shape, all, value⟩ := digits_cons n
  obtain ⟨first, later⟩ := List.forall_mem_cons.mp all
  have ran : run style .plain (keyword ++ toString n).toList =
      some (numberMarks style 0 tokens, .number (digit :: digits)) := by
    rw [String.toList_append, shape, run_append style opens.ran, run, step,
      openToken_digit quote first]
    simp [(run_digits later [digit]).1]
  refine Reads.ending ?_ ran (.number _) ?_
  · rw [marks_append, opens.static]
    rfl
  · rw [numberMarks_append, value]
    rfl

/-- Parts with a separator between them. -/
theorem Reads.joined (quote : style.quote = '"' ∨ style.quote = '\x60') {separator : String}
    {token : Tok V} (opens : Opens style separator [token]) (starts : Breaks false separator)
    {α : Type} {values : List α} {layout : α → List (Piece V)} {spell : α → List (Tok V)}
    (each : ∀ value ∈ values, Reads style (layout value) (spell value)) :
    Reads style (Template.joinPieces separator (values.map layout))
      (Grammar.joined token (values.map spell)) := by
  induction values with
  | nil => exact .nil
  | cons first others ih =>
    obtain ⟨head, tail⟩ := List.forall_mem_cons.mp each
    cases others with
    | nil => exact head
    | cons next others =>
      rw [List.map_cons, List.map_cons, List.map_cons, List.map_cons, Template.joinPieces, Grammar.joined]
      · exact head.append ((Reads.text opens (ih tail)).follows quote starts)
      · exact List.cons_ne_nil _ _
      · exact List.cons_ne_nil _ _

end Templates

end SqlText
