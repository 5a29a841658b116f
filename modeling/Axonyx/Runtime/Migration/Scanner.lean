import Axonyx.Lexis.Engine
import Axonyx.Outcome

/-! The scan that keeps transaction control out of migration scripts, against the statements
that SQLite and Postgres read in the same script. -/
namespace Axonyx.Runtime.Migration

open Lexis

section Errors

inductive AxDbErrorCode where
  | unknownResource
  | uniqueViolation
  | invalidQuery
  | migrationConflict
  | migrationChecksumMismatch
  | connectionFailed
  | driverError
  deriving DecidableEq, Repr

def AxDbErrorCode.asStr : AxDbErrorCode → String
  | .unknownResource => "db.unknown_resource"
  | .uniqueViolation => "db.unique_violation"
  | .invalidQuery => "db.invalid_query"
  | .migrationConflict => "db.migration_conflict"
  | .migrationChecksumMismatch => "db.migration_checksum_mismatch"
  | .connectionFailed => "db.connection_failed"
  | .driverError => "db.driver_error"

def AxDbErrorCode.defaultMessage : AxDbErrorCode → String
  | .unknownResource => "Database resource was not found."
  | .uniqueViolation => "Record already exists."
  | .invalidQuery => "Database query is invalid."
  | .migrationConflict => "Database migration state conflicts with the requested operation."
  | .migrationChecksumMismatch =>
    "Applied database migration checksum does not match the local file."
  | .connectionFailed => "Database connection failed."
  | .driverError => "Database operation failed."

def AxDbErrorCode.status : AxDbErrorCode → Nat
  | .unknownResource | .invalidQuery => 400
  | .uniqueViolation | .migrationConflict | .migrationChecksumMismatch => 409
  | .connectionFailed => 503
  | .driverError => 500

structure AxDbError where
  code : String
  message : String
  status : Nat
  driver : Option String
  resource : Option String
  field : Option String
  detail : Option String
  deriving DecidableEq, Repr

def AxDbError.new (code : AxDbErrorCode) : AxDbError :=
  ⟨code.asStr, code.defaultMessage, code.status, none, none, none, none⟩

abbrev AxRuntimeResult := Except AxDbError

def migrationsResource : String := "_axonyx_migrations"

def migrationError (code : AxDbErrorCode) (version detail : String) : AxDbError :=
  { AxDbError.new code with
    resource := some migrationsResource, field := some version, detail := some detail }

end Errors

section Scan

/-- What a round of the scan finds: a word, or the end of a statement. -/
inductive Found where
  | word (text : String)
  | separator
  deriving DecidableEq, Repr

def isScanStart (c : Char) : Bool := c.isAlpha || c == '_'

def isScanChar (c : Char) : Bool := c.isAlphanum || c == '_'

/-- The text behind a dollar quote, given the text behind its first dollar sign. -/
def skipDollar (rest : List Char) : Option (List Char) :=
  let tag := rest.takeWhile (· ≠ '$')
  match rest.dropWhile (· ≠ '$') with
  | [] => none
  | _ :: body => if tag.all isScanChar then behind ('$' :: tag ++ ['$']) body else none

/-- One round of the loop: what it finds, and the text it goes on with. -/
def scanStep (c : Char) (rest : List Char) : Option Found × List Char :=
  if isBlank c then (none, rest)
  else if c = '-' ∧ rest.head? = some '-' then (none, rest.tail.dropWhile (· ≠ '\n'))
  else if c = '/' ∧ rest.head? = some '*' then (none, (blockRest true 0 rest.tail).getD [])
  else if c = '\'' ∨ c = '"' then (none, (quotedRest c rest).getD [])
  else match if c = '$' then skipDollar rest else none with
    | some later => (none, later)
    | none =>
      if c = ';' then (some .separator, rest)
      else if isScanStart c then
        (some (.word (lowercase (c :: rest.takeWhile isScanChar))), rest.dropWhile isScanChar)
      else (none, rest)

def scanFrom : Nat → List Char → List Found
  | 0, _ | _, [] => []
  | fuel + 1, c :: rest => (scanStep c rest).1.toList ++ scanFrom fuel (scanStep c rest).2

def scan (text : List Char) : List Found := scanFrom text.length text

def pushStatement (keywords : List String) (statements : List (List String)) :
    List (List String) :=
  if keywords.isEmpty then statements else statements ++ [keywords]

/-- One round's effect on the keywords of the statement and on the statements before it. -/
def collect (state : List String × List (List String)) : Found → List String × List (List String)
  | .separator => ([], pushStatement state.1 state.2)
  | .word text => (if state.1.length < 2 then state.1 ++ [text] else state.1, state.2)

def migrationStatementPrefixes (sql : String) : List (List String) :=
  let (keywords, statements) := (scan sql.toList).foldl collect ([], [])
  pushStatement keywords statements

def managesTransaction (keywords : List String) : Bool :=
  let first := keywords.head?.getD ""
  let second := keywords[1]?.getD ""
  first ∈ ["begin", "commit", "rollback", "savepoint", "release", "abort"] ||
    (first, second) ∈ [("start", "transaction"), ("set", "transaction")]

def rejectMigrationTransactionControl (version sql : String) : AxRuntimeResult Unit :=
  if (migrationStatementPrefixes sql).any managesTransaction then
    .error (migrationError .invalidQuery version "migration SQL must not manage transactions directly")
  else .ok ()

end Scan

section Progress

theorem quoted_rest (quote : Char) (text : List Char) : (quotedRest quote text).getD [] <:+ text := by
  cases ends : quotedRest quote text with
  | none => exact List.nil_suffix
  | some rest => exact quotedRest_suffix ends

theorem block_rest (nested : Bool) (depth : Nat) (text : List Char) :
    (blockRest nested depth text).getD [] <:+ text := by
  cases ends : blockRest nested depth text with
  | none => exact List.nil_suffix
  | some rest => exact blockRest_suffix ends

theorem skipDollar_suffix {rest later : List Char} (found : skipDollar rest = some later) :
    later <:+ rest := by
  unfold skipDollar at found
  split at found
  · cases found
  · next shape =>
    dsimp only at found
    split at found
    · exact (behind_suffix found).trans ((List.suffix_cons _ _).trans (shape ▸ List.dropWhile_suffix _))
    · cases found

theorem scanStep_suffix (c : Char) (rest : List Char) : (scanStep c rest).2 <:+ rest := by
  unfold scanStep
  split
  · exact List.suffix_refl _
  split
  · exact (List.dropWhile_suffix _).trans (List.tail_suffix _)
  split
  · exact (block_rest true 0 _).trans (List.tail_suffix _)
  split
  · exact quoted_rest c rest
  split
  · next dollar =>
    split at dollar
    · exact skipDollar_suffix dollar
    · cases dollar
  split
  · exact List.suffix_refl _
  split
  · exact List.dropWhile_suffix _
  · exact List.suffix_refl _

theorem scanFrom_fuel {fuel other : Nat} {text : List Char} (enough : text.length ≤ fuel)
    (too : text.length ≤ other) : scanFrom fuel text = scanFrom other text := by
  induction fuel generalizing other text with
  | zero =>
    obtain rfl : text = [] := List.length_eq_zero_iff.mp (by omega)
    cases other <;> rfl
  | succ fuel ih =>
    cases text with
    | nil => cases other <;> rfl
    | cons c rest =>
      cases other with
      | zero => simp at too
      | succ other =>
        simp only [List.length_cons] at enough too
        have shorter := (scanStep_suffix c rest).length_le
        exact congrArg (_ ++ ·) (ih (by omega) (by omega))

theorem scan_cons (c : Char) (rest : List Char) :
    scan (c :: rest) = (scanStep c rest).1.toList ++ scan (scanStep c rest).2 := by
  have shorter := (scanStep_suffix c rest).length_le
  exact congrArg (_ ++ ·) (scanFrom_fuel shorter (Nat.le_refl _))

end Progress

section Prefixes

/-- The words between two separators. -/
def texts (group : List Found) : List String :=
  group.flatMap fun found => match found with
    | .word text => [text]
    | .separator => []

def groups (found : List Found) : List (List String) :=
  (found.splitOnP (· == .separator)).map texts

def prefixes (groups : List (List String)) : List (List String) :=
  (groups.map (List.take 2)).filter fun keywords => !keywords.isEmpty

theorem groups_separator (found : List Found) : groups (.separator :: found) = [] :: groups found := by
  rw [groups, List.splitOnP_cons_eq_if_modifyHead, if_pos (by decide)]
  rfl

theorem groups_word (text : String) (found : List Found) :
    groups (.word text :: found) = (groups found).modifyHead (text :: ·) := by
  rw [groups, List.splitOnP_cons_eq_if_modifyHead, if_neg (by simp), groups]
  cases found.splitOnP (· == .separator) <;> rfl

theorem groups_cons (found : List Found) : ∃ first rest, groups found = first :: rest := by
  cases shape : groups found with
  | nil => exact absurd (List.map_eq_nil_iff.mp shape) (List.splitOnP_ne_nil _ _)
  | cons first rest => exact ⟨first, rest, rfl⟩

theorem take_push (words : List String) (text : String) :
    (if (words.take 2).length < 2 then words.take 2 ++ [text] else words.take 2) =
      (words ++ [text]).take 2 := by
  rcases words with _ | ⟨first, _ | ⟨second, rest⟩⟩ <;> simp

theorem collect_groups (words : List String) (statements : List (List String))
    (found : List Found) :
    (fun state => pushStatement state.1 state.2) (found.foldl collect (words.take 2, statements)) =
      statements ++ prefixes ((groups found).modifyHead (words ++ ·)) := by
  induction found generalizing words statements with
  | nil =>
    cases empty : (words.take 2).isEmpty <;> simp [groups, texts, prefixes, pushStatement, empty]
  | cons first rest ih =>
    cases first with
    | separator =>
      have later := ih [] (pushStatement (words.take 2) statements)
      rw [List.foldl_cons, groups_separator]
      refine later.trans ?_
      obtain ⟨group, others, shape⟩ := groups_cons rest
      cases empty : (words.take 2).isEmpty <;> simp [shape, prefixes, pushStatement, empty]
    | word text =>
      have later := ih (words ++ [text]) statements
      rw [List.foldl_cons, collect, take_push, groups_word]
      refine later.trans ?_
      obtain ⟨group, others, shape⟩ := groups_cons rest
      simp [shape]

theorem migrationStatementPrefixes_eq (sql : String) :
    migrationStatementPrefixes sql = prefixes (groups (scan sql.toList)) := by
  have collected := collect_groups [] [] (scan sql.toList)
  obtain ⟨group, others, shape⟩ := groups_cons (scan sql.toList)
  rw [shape] at collected ⊢
  exact collected

end Prefixes

section Together

/-- What the scan finds until it comes to `later`; nothing, if it does not stop there. -/
def scanUntil (later : List Char) : Nat → List Char → Option (List Found)
  | 0, text => if text.length = later.length then some [] else none
  | fuel + 1, text =>
    if text.length = later.length then some []
    else match text with
      | [] => none
      | c :: rest =>
        (scanUntil later fuel (scanStep c rest).2).map ((scanStep c rest).1.toList ++ ·)

/-- In a comment the scan finds nothing, and in a token no end of a statement. -/
def agrees : Option Token → List Found → Bool
  | none, found => found.isEmpty
  | some .semicolon, _ => true
  | some _, found => found.all (· ≠ .separator)

/-- The scan stops at the end of the token that the engine reads. -/
def sameRead (engine : Engine) (c : Char) (rest : List Char) : Bool :=
  match scanUntil ((engine.read c rest).2.getD []) (rest.length + 1) (c :: rest) with
  | none => false
  | some found => agrees (engine.read c rest).1 found

/-- The scan and the engine never drift apart. -/
inductive Together (engine : Engine) : List Char → Prop
  | nil : Together engine []
  | token {c : Char} {rest : List Char} (same : sameRead engine c rest = true)
      (later : Together engine ((engine.read c rest).2.getD [])) : Together engine (c :: rest)

/-- The walk along the tokens of a text, for at most `fuel` of them. -/
def isTogether (engine : Engine) : Nat → List Char → Bool
  | _, [] => true
  | 0, _ => false
  | fuel + 1, c :: rest =>
    sameRead engine c rest && isTogether engine fuel ((engine.read c rest).2.getD [])

theorem together_of_walk {engine : Engine} {fuel : Nat} {text : List Char}
    (walk : isTogether engine fuel text = true) : Together engine text := by
  induction fuel generalizing text with
  | zero =>
    cases text with
    | nil => exact .nil
    | cons c rest => cases walk
  | succ fuel ih =>
    cases text with
    | nil => exact .nil
    | cons c rest =>
      rw [isTogether, Bool.and_eq_true] at walk
      exact .token walk.1 (ih walk.2)

theorem scanUntil_scan {later text whole : List Char} {fuel : Nat} {found : List Found}
    (here : text <:+ whole) (there : later <:+ whole)
    (stops : scanUntil later fuel text = some found) : scan text = found ++ scan later := by
  have arrive (same : text.length = later.length) : text = later := by
    have inside := List.suffix_of_suffix_length_le here there same.le
    exact inside.eq_of_length same
  induction fuel generalizing text found with
  | zero =>
    rw [scanUntil] at stops
    split at stops
    · next same =>
      cases stops
      rw [arrive same, List.nil_append]
    · cases stops
  | succ fuel ih =>
    rw [scanUntil.eq_def] at stops
    dsimp only at stops
    split at stops
    · next same =>
      cases stops
      rw [arrive same, List.nil_append]
    · cases text with
      | nil => cases stops
      | cons c rest =>
        obtain ⟨others, reaches, rfl⟩ := Option.map_eq_some_iff.mp stops
        have onward := (scanStep_suffix c rest).trans ((List.suffix_cons c rest).trans here)
        rw [scan_cons, ih onward reaches, List.append_assoc]
        intro same
        have inside := List.suffix_of_suffix_length_le onward there same.le
        exact inside.eq_of_length same

end Together

section Statements

/-- The words that the guard looks for at the start of a statement. -/
def controlWords : List String :=
  ["begin", "commit", "rollback", "savepoint", "release", "abort", "start", "set", "transaction"]

/-- The words of a statement, token by token; a word that the guard looks for stands alone. -/
inductive Spelled : List Token → List String → Prop
  | nil : Spelled [] []
  | token {token : Token} {words : List String} {tokens : List Token} {rest : List String}
      (control : ∀ word, token = .word word → word ∈ controlWords → words = [word])
      (later : Spelled tokens rest) : Spelled (token :: tokens) (words ++ rest)

theorem groups_append {before : List Found} (inside : before.all (· ≠ .separator) = true)
    (found : List Found) :
    groups (before ++ found) = (groups found).modifyHead (texts before ++ ·) := by
  obtain ⟨group, others, shape⟩ := groups_cons found
  induction before with
  | nil => simp [shape, texts]
  | cons first rest ih =>
    simp only [List.all_cons, Bool.and_eq_true, decide_eq_true_eq] at inside
    cases first with
    | separator => exact absurd rfl inside.1
    | word text =>
      rw [List.cons_append, groups_word, ih inside.2, shape]
      rfl

theorem pieces_semicolon (tokens : List Token) : pieces (.semicolon :: tokens) = [] :: pieces tokens := by
  rw [pieces, List.splitOnP_cons_eq_if_modifyHead, if_pos (by decide), pieces]

theorem pieces_token {token : Token} (plain : token ≠ .semicolon) (tokens : List Token) :
    pieces (token :: tokens) = (pieces tokens).modifyHead (token :: ·) := by
  rw [pieces, List.splitOnP_cons_eq_if_modifyHead, if_neg (by simpa using plain), pieces]

theorem isScanChar_word {c : Char} (kind : isScanChar c = true) : isWordChar c = true := by
  simp only [isScanChar, Char.isAlphanum, Bool.or_eq_true] at kind
  simp only [isWordChar, isWordStart, Bool.or_eq_true]
  tauto

theorem takeWhile_same {p q : Char → Bool} {text : List Char}
    (weaker : ∀ c, q c = true → p c = true) (all : ∀ c ∈ text.takeWhile p, q c = true) :
    text.takeWhile q = text.takeWhile p ∧ text.dropWhile q = text.dropWhile p := by
  induction text with
  | nil => exact ⟨rfl, rfl⟩
  | cons c rest ih =>
    cases kind : p c with
    | true =>
      rw [List.takeWhile_cons_of_pos kind] at all
      obtain ⟨here, later⟩ := List.forall_mem_cons.mp all
      simpa [kind, here] using ih later
    | false =>
      have other : q c = false := by
        cases same : q c with
        | false => rfl
        | true => rw [weaker c same] at kind; cases kind
      simp [kind, other]

theorem isAlpha_of_toLower {c : Char} (letter : c.toLower.isAlpha = true) : c.isAlpha = true := by
  by_cases upper : c.val ≥ 'A'.val ∧ c.val ≤ 'Z'.val
  · rw [Identifiers.isAlpha_eq, Bool.or_eq_true]
    exact .inl (by simpa [Identifiers.isUpper_eq] using upper)
  · rwa [Identifiers.toLower_plain upper] at letter

theorem control_letters {word : String} (control : word ∈ controlWords) :
    ∀ c ∈ word.toList, c.isAlpha = true := by
  have all : ∀ word ∈ controlWords, word.toList.all Char.isAlpha = true := by decide
  exact List.all_eq_true.mp (all word control)

/-- Where the engine reads a word that the guard looks for, the scan finds that word. -/
theorem scanStep_control {engine : Engine} {c : Char} {rest : List Char} {word : String}
    (token : (engine.read c rest).1 = some (.word word)) (control : word ∈ controlWords) :
    scanStep c rest = (some (.word word), (engine.read c rest).2.getD []) := by
  obtain ⟨start, rfl, later⟩ := Engine.read_word token
  have letters : ∀ d ∈ c :: rest.takeWhile isWordChar, d.isAlpha = true := by
    intro d member
    refine isAlpha_of_toLower (control_letters control _ ?_)
    rw [lowercase, String.toList_ofList]
    exact List.mem_map_of_mem member
  obtain ⟨first, others⟩ := List.forall_mem_cons.mp letters
  have scanned : ∀ d ∈ rest.takeWhile isWordChar, isScanChar d = true := fun d member => by
    simp [isScanChar, Char.isAlphanum, others d member]
  have same := takeWhile_same (fun _ => isScanChar_word) scanned
  have apart (d : Char) (other : d.isAlpha = false) : c ≠ d := by
    rintro rfl
    rw [first] at other
    cases other
  have blank : isBlank c = false := by
    simp [isBlank, apart ' ' rfl, apart '\t' rfl, apart '\n' rfl, apart '\r' rfl, apart '\x0c' rfl]
  rw [later, scanStep, if_neg (by simp [blank]), if_neg fun both => apart '-' rfl both.1,
    if_neg fun both => apart '/' rfl both.1,
    if_neg (not_or.mpr ⟨apart '\'' rfl, apart '"' rfl⟩), if_neg (apart '$' rfl)]
  simp [apart ';' rfl, isScanStart, first, same.1, same.2]

theorem scanStep_semicolon (rest : List Char) : scanStep ';' rest = (some .separator, rest) := by
  simp [scanStep, isBlank]

theorem scanUntil_self (later : List Char) (fuel : Nat) : scanUntil later fuel later = some [] := by
  cases fuel <;> simp [scanUntil]

theorem scanUntil_control {engine : Engine} {c : Char} {rest : List Char} {word : String}
    (token : (engine.read c rest).1 = some (.word word)) (control : word ∈ controlWords) :
    scanUntil ((engine.read c rest).2.getD []) (rest.length + 1) (c :: rest) =
      some [.word word] := by
  have shorter := (engine.read_rest c rest).length_le
  have moved : ¬(c :: rest).length = ((engine.read c rest).2.getD []).length := by
    simp only [List.length_cons]
    omega
  rw [scanUntil, if_neg moved, scanStep_control token control, scanUntil_self]
  rfl

theorem agrees_token {token : Token} {found : List Found} (plain : token ≠ .semicolon)
    (same : agrees (some token) found = true) : found.all (· ≠ .separator) = true := by
  cases token with
  | semicolon => exact absurd rfl plain
  | word | quoted | opening | closing | symbol => exact same

theorem Together.spelled {engine : Engine} {text : List Char} (together : Together engine text) :
    List.Forall₂ Spelled (pieces (engine.tokens text)) (groups (scan text)) := by
  induction together with
  | nil => exact .cons .nil .nil
  | @token c rest same _ ih =>
    have shorter := engine.read_rest c rest
    rw [engine.tokens_cons]
    cases kind : (engine.read c rest).1 with
    | none =>
      rw [sameRead, kind] at same
      split at same
      · cases same
      · next found stops =>
        obtain rfl := List.isEmpty_iff.mp same
        have reached := scanUntil_scan (List.suffix_refl _) (shorter.trans (List.suffix_cons _ _)) stops
        rw [reached]
        exact ih
    | some token =>
      by_cases semicolon : token = .semicolon
      · subst semicolon
        obtain ⟨later, rfl⟩ := Engine.read_semicolon kind
        rw [later] at ih ⊢
        rw [scan_cons, scanStep_semicolon]
        exact (pieces_semicolon _).symm ▸ (groups_separator _).symm ▸ List.Forall₂.cons .nil ih
      · rw [sameRead, kind] at same
        split at same
        · cases same
        · next found stops =>
          have reached := scanUntil_scan (List.suffix_refl _) (shorter.trans (List.suffix_cons _ _)) stops
          have control : ∀ word, token = .word word → word ∈ controlWords → texts found = [word] := by
            rintro word rfl control
            rw [scanUntil_control kind control] at stops
            cases stops
            rfl
          rw [reached, groups_append (agrees_token semicolon same)]
          change List.Forall₂ Spelled (pieces (token :: engine.tokens _)) _
          rw [pieces_token semicolon]
          obtain ⟨group, others, shape⟩ := groups_cons (scan ((engine.read c rest).2.getD []))
          rw [shape] at ih ⊢
          cases pieced : pieces (engine.tokens ((engine.read c rest).2.getD [])) with
          | nil => rw [pieced] at ih; cases ih
          | cons piece more =>
            rw [pieced] at ih
            cases ih with
            | cons spelled rest => exact .cons (.token control spelled) rest

/-- The statements that would end or nest the transaction around a script. -/
def controls : List Token → Bool
  | .word first :: rest =>
    first ∈ ["begin", "commit", "end", "rollback", "savepoint", "release", "abort"] ||
      (first ∈ ["start", "set"] && rest.head? == some (.word "transaction"))
  | _ => false

def isEnd (statement : List Token) : Bool := statement.head? == some (.word "end")

theorem Spelled.control {word : String} {tokens : List Token} {words : List String}
    (spelled : Spelled (.word word :: tokens) words) (control : word ∈ controlWords) :
    ∃ rest, words = word :: rest ∧ Spelled tokens rest := by
  cases spelled with
  | @token _ first _ rest alone later => exact ⟨rest, by rw [alone word rfl control]; rfl, later⟩

/-- A statement that the guard has to find is one that it finds, unless it is an `end`. -/
theorem Spelled.manages {statement : List Token} {words : List String}
    (spelled : Spelled statement words) (bad : controls statement = true)
    (other : isEnd statement = false) : managesTransaction (words.take 2) = true := by
  rcases statement with _ | ⟨token, rest⟩
  · cases bad
  cases token with
  | word first =>
    have different : first ≠ "end" := by simpa [isEnd] using other
    simp only [controls, Bool.or_eq_true, Bool.and_eq_true, decide_eq_true_eq, beq_iff_eq] at bad
    rcases bad with single | ⟨opens, second⟩
    · have found : first ∈ ["begin", "commit", "rollback", "savepoint", "release", "abort"] := by
        simp only [List.mem_cons, List.not_mem_nil, or_false] at single ⊢
        tauto
      have control : first ∈ controlWords := by
        simp only [controlWords, List.mem_cons, List.not_mem_nil, or_false] at found ⊢
        tauto
      obtain ⟨more, rfl, -⟩ := spelled.control control
      simp only [List.mem_cons, List.not_mem_nil, or_false] at found
      simp [managesTransaction, found]
    · have control : first ∈ controlWords := by
        simp only [controlWords, List.mem_cons, List.not_mem_nil, or_false] at opens ⊢
        tauto
      obtain ⟨more, rfl, later⟩ := spelled.control control
      rcases rest with _ | ⟨next, rest⟩
      · cases second
      obtain rfl := Option.some.inj second
      obtain ⟨more, rfl, -⟩ := later.control (by decide)
      simp only [List.mem_cons, List.not_mem_nil, or_false] at opens
      rcases opens with rfl | rfl <;> rfl
  | quoted | semicolon | opening | closing | symbol => cases bad

theorem rejectMigrationTransactionControl_ok {version sql : String} :
    rejectMigrationTransactionControl version sql = .ok () ↔
      ∀ keywords ∈ migrationStatementPrefixes sql, managesTransaction keywords = false := by
  unfold rejectMigrationTransactionControl
  split
  · next found => simpa using found
  · next none => simpa using none

/-- Where the scan keeps together with the engine, an accepted script has no control statement
but those that start with `end`. -/
theorem Together.accepted {engine : Engine} {version sql : String}
    (together : Together engine sql.toList)
    (accepted : rejectMigrationTransactionControl version sql = .ok ()) :
    (∀ statement ∈ engine.statements sql.toList, controls statement = false) ↔
      ∀ statement ∈ engine.statements sql.toList, isEnd statement = false := by
  constructor
  · intro safe statement member
    cases ends : isEnd statement with
    | false => rfl
    | true =>
      obtain ⟨rest, rfl⟩ := List.head?_eq_some_iff.mp (eq_of_beq ends)
      exact absurd (safe _ member) (by simp [controls])
  · intro none statement member
    cases bad : controls statement with
    | false => rfl
    | true =>
      obtain ⟨words, group, spelled⟩ := Outcome.related_left together.spelled (engine.mem_statements member)
      have manages := spelled.manages bad (none statement member)
      have listed : words.take 2 ∈ migrationStatementPrefixes sql := by
        rw [migrationStatementPrefixes_eq, prefixes, List.mem_filter]
        refine ⟨List.mem_map_of_mem group, ?_⟩
        cases shape : words.take 2 with
        | nil => rw [shape] at manages; cases manages
        | cons => rfl
      rw [rejectMigrationTransactionControl_ok.mp accepted _ listed] at manages
      cases manages

end Statements

section Engines

/-- Dollar signs start variables, comments do not nest, brackets and backticks quote names. -/
def sqlite : Engine where
  quotes := ['\'', '"', '\x60']
  lineEnds := ['\n']
  nested := false
  dollarQuotes := false
  brackets := true
  triggerBodies := true

def postgres : Engine where
  quotes := ['\'', '"']
  lineEnds := ['\n', '\r']
  nested := true
  dollarQuotes := true
  brackets := false
  triggerBodies := false

/-- No statement at the top level ends, nests or sets a transaction. -/
def LeavesTransaction (engine : Engine) (sql : String) : Prop :=
  ∀ statement ∈ engine.statements sql.toList, controls statement = false

def notesScript : String :=
  "create table notes (id integer); -- first; version\n" ++
    "create trigger keep after delete on notes begin insert into notes values (0); end;"

end Engines

end Axonyx.Runtime.Migration
