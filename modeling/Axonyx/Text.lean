import Axonyx.Identifiers
import Mathlib.Algebra.Group.Nat.Defs
import Mathlib.Algebra.GroupWithZero.Nat
import Mathlib.Data.List.Basic
import Mathlib.Data.List.TakeWhile
import Mathlib.Data.List.DropRight

/-! String operations with the meaning Rust's standard library gives them: Unicode
white space, ASCII case folding, splitting at a separator. -/
namespace Text

/-- The letters of a text are looked at, not all letters there are. -/
instance (priority := high) decidableLetters (p : Char → Prop) [DecidablePred p] (text : List Char) :
    Decidable (∀ c, c ∈ text → p c) := List.decidableBAll p text

/-- `char::is_whitespace`, the Unicode property White_Space. -/
def isWhitespace (c : Char) : Bool :=
  let n := c.toNat
  (9 ≤ n && n ≤ 13) || n = 32 || n = 0x85 || n = 0xA0 || n = 0x1680 || (0x2000 ≤ n && n ≤ 0x200A) ||
    n = 0x2028 || n = 0x2029 || n = 0x202F || n = 0x205F || n = 0x3000

/-- `char::is_control`, the general category Cc. -/
def isControl (c : Char) : Bool := c.toNat < 32 || (0x7F ≤ c.toNat && c.toNat < 0xA0)

def trimStart (text : List Char) : List Char := text.dropWhile isWhitespace

def trimEnd (text : List Char) : List Char := (text.reverse.dropWhile isWhitespace).reverse

def trimChars (text : List Char) : List Char := trimEnd (trimStart text)

/-- `str::trim`. -/
def trim (text : String) : String := .ofList (trimEnd (trimStart text.toList))

/-- `str::eq_ignore_ascii_case`; `Char.toLower` folds ASCII letters only. -/
def eqIgnoreAsciiCase (a b : String) : Bool :=
  a.toList.map Char.toLower = b.toList.map Char.toLower

def toAsciiLowercase (text : String) : String := .ofList (text.toList.map Char.toLower)

def toAsciiUppercase (text : String) : String := .ofList (text.toList.map Char.toUpper)

def splitOnceChars (separator : List Char) : List Char → Option (List Char × List Char)
  | [] => if separator.isEmpty then some ([], []) else none
  | c :: text =>
    if separator.isPrefixOf (c :: text) then some ([], (c :: text).drop separator.length)
    else (splitOnceChars separator text).map fun parts => (c :: parts.1, parts.2)

/-- `str::split_once`. -/
def splitOnce (text separator : String) : Option (String × String) :=
  (splitOnceChars separator.toList text.toList).map fun parts =>
    (.ofList parts.1, .ofList parts.2)

/-- `str::rsplit_once` with a character. -/
def rsplitOnce (text : String) (separator : Char) : Option (String × String) :=
  (splitOnceChars [separator] text.toList.reverse).map fun parts =>
    (.ofList parts.2.reverse, .ofList parts.1.reverse)

/-- `str::split` with a character. -/
def split (text : String) (separator : Char) : List String :=
  (text.toList.splitOn separator).map .ofList

def withoutReturn (line : List Char) : List Char :=
  if line.getLast? = some '\r' then line.dropLast else line

/-- The lines of a text behind an open one. Only in front of a line feed is a carriage return
part of the line's end. -/
def lineChars (line : List Char) : List Char → List (List Char)
  | [] => if line.isEmpty then [] else [line]
  | c :: rest => if c = '\n' then withoutReturn line :: lineChars [] rest else lineChars (line ++ [c]) rest

/-- `str::lines`. -/
def lines (text : String) : List String := (lineChars [] text.toList).map .ofList

def startsWith (text start : String) : Bool := start.toList.isPrefixOf text.toList

def stripPrefix (text start : String) : Option String :=
  if startsWith text start then some (.ofList (text.toList.drop start.length)) else none

def stripSuffix (text finish : String) : Option String :=
  if finish.toList.isSuffixOf text.toList then
    some (.ofList (text.toList.take (text.length - finish.length)))
  else none

/-- `[&str]::join`. -/
def join (separator : String) : List String → String
  | [] => ""
  | [text] => text
  | text :: rest => text ++ separator ++ join separator rest

/-- An unsigned `str::parse`: an optional plus sign, then digits that do not overflow. -/
def parseUnsigned (limit : Nat) (text : List Char) : Option Nat :=
  let digits := if text.head? = some '+' then text.tail else text
  if digits.isEmpty || !digits.all Char.isDigit then none
  else
    let value := digits.foldl (fun n c => n * 10 + (c.toNat - 48)) 0
    if value ≤ limit then some value else none

/-- `str::parse::<i64>`. -/
def parseI64 (text : List Char) : Option Int64 :=
  match text with
  | '-' :: digits =>
    if digits.head? = some '+' then none
    else (parseUnsigned (2 ^ 63) digits).map fun n : Nat => Int64.ofInt (-(n : Int))
  | digits => (parseUnsigned (2 ^ 63 - 1) digits).map fun n : Nat => Int64.ofInt n

def isContinuation (byte : UInt8) : Bool := 0x80 ≤ byte && byte ≤ 0xBF

/-- Bytes that may follow the lead byte of a three- or four-byte sequence. -/
def isSecond (lead byte : UInt8) : Bool :=
  if lead = 0xE0 then 0xA0 ≤ byte && byte ≤ 0xBF
  else if lead = 0xED then 0x80 ≤ byte && byte ≤ 0x9F
  else if lead = 0xF0 then 0x90 ≤ byte && byte ≤ 0xBF
  else if lead = 0xF4 then 0x80 ≤ byte && byte ≤ 0x8F
  else isContinuation byte

/-- `String::from_utf8_lossy`: every maximal invalid sequence becomes one U+FFFD. -/
def lossyChars : List UInt8 → List Char
  | [] => []
  | a :: rest =>
    if a < 0x80 then .ofNat a.toNat :: lossyChars rest
    else if 0xC2 ≤ a && a ≤ 0xDF then
      match rest with
      | b :: rest =>
        if isContinuation b then
          .ofNat ((a.toNat - 0xC0) * 64 + (b.toNat - 0x80)) :: lossyChars rest
        else '\uFFFD' :: lossyChars (b :: rest)
      | [] => ['\uFFFD']
    else if 0xE0 ≤ a && a ≤ 0xEF then
      match rest with
      | b :: rest =>
        if isSecond a b then
          match rest with
          | c :: rest =>
            if isContinuation c then
              .ofNat ((a.toNat - 0xE0) * 4096 + (b.toNat - 0x80) * 64 + (c.toNat - 0x80)) ::
                lossyChars rest
            else '\uFFFD' :: lossyChars (c :: rest)
          | [] => ['\uFFFD']
        else '\uFFFD' :: lossyChars (b :: rest)
      | [] => ['\uFFFD']
    else if 0xF0 ≤ a && a ≤ 0xF4 then
      match rest with
      | b :: rest =>
        if isSecond a b then
          match rest with
          | c :: rest =>
            if isContinuation c then
              match rest with
              | d :: rest =>
                if isContinuation d then
                  .ofNat ((a.toNat - 0xF0) * 262144 + (b.toNat - 0x80) * 4096 +
                    (c.toNat - 0x80) * 64 + (d.toNat - 0x80)) :: lossyChars rest
                else '\uFFFD' :: lossyChars (d :: rest)
              | [] => ['\uFFFD']
            else '\uFFFD' :: lossyChars (c :: rest)
          | [] => ['\uFFFD']
        else '\uFFFD' :: lossyChars (b :: rest)
      | [] => ['\uFFFD']
    else '\uFFFD' :: lossyChars rest

def fromUtf8Lossy (bytes : List UInt8) : String := .ofList (lossyChars bytes)

def hexDigit (n : Nat) : Char := "0123456789abcdef".toList.getD n '0'

def escapeJsonChar (c : Char) : List Char :=
  if c = '"' then ['\\', '"']
  else if c = '\\' then ['\\', '\\']
  else if c.toNat = 8 then ['\\', 'b']
  else if c.toNat = 9 then ['\\', 't']
  else if c.toNat = 10 then ['\\', 'n']
  else if c.toNat = 12 then ['\\', 'f']
  else if c.toNat = 13 then ['\\', 'r']
  else if c.toNat < 32 then
    ['\\', 'u', '0', '0', hexDigit (c.toNat / 16), hexDigit (c.toNat % 16)]
  else [c]

def quoteJson (text : String) : List Char := '"' :: text.toList.flatMap escapeJsonChar ++ ['"']

theorem stripSuffix_append (text finish : String) : stripSuffix (text ++ finish) finish = some text := by
  have ends : finish.toList.isSuffixOf (text ++ finish).toList = true := by
    rw [String.toList_append, List.isSuffixOf_iff_suffix]
    exact List.suffix_append _ _
  have length : (text ++ finish).length - finish.length = text.toList.length := by
    rw [String.length_append, Nat.add_sub_cancel, String.length_toList]
  rw [stripSuffix, if_pos ends, length, String.toList_append, List.take_left, String.ofList_toList]

theorem stripPrefix_other {text opening : String} {c d : Char} {rest more : List Char}
    (shape : text.toList = c :: rest) (opens : opening.toList = d :: more) (other : c ≠ d) :
    stripPrefix text opening = none := by
  rw [stripPrefix, startsWith, shape, opens, List.isPrefixOf_cons_cons, beq_eq_false_iff_ne.mpr other.symm]
  rfl

theorem stripPrefix_append (text opening : String) : stripPrefix (opening ++ text) opening = some text := by
  have begins : opening.toList.isPrefixOf (opening ++ text).toList = true := by
    rw [String.toList_append, List.isPrefixOf_iff_prefix]
    exact List.prefix_append _ _
  rw [stripPrefix, startsWith, begins, if_pos rfl, String.toList_append, ← String.length_toList, List.drop_left,
    String.ofList_toList]

theorem splitOnceChars_eq_some {separator text before after : List Char}
    (found : splitOnceChars separator text = some (before, after)) :
    text = before ++ separator ++ after := by
  induction text generalizing before after with
  | nil =>
    unfold splitOnceChars at found
    split at found
    next empty =>
      obtain ⟨rfl, rfl⟩ := Prod.mk.inj (Option.some.inj found)
      simp [List.isEmpty_iff.mp empty]
    next => cases found
  | cons c text ih =>
    unfold splitOnceChars at found
    split at found
    next here =>
      obtain ⟨rfl, rfl⟩ := Prod.mk.inj (Option.some.inj found)
      obtain ⟨rest, same⟩ := List.isPrefixOf_iff_prefix.mp here
      simp [← same]
    next =>
      obtain ⟨⟨first, second⟩, later, same⟩ := Option.map_eq_some_iff.mp found
      obtain ⟨rfl, rfl⟩ := Prod.mk.inj same
      rw [ih later]
      rfl

theorem splitOnceChars_eq_none {separator text : List Char} :
    splitOnceChars separator text = none ↔ ¬ separator <:+: text := by
  induction text with
  | nil => simp [splitOnceChars]
  | cons c text ih =>
    rw [splitOnceChars, List.infix_cons_iff, not_or, ← ih]
    by_cases here : separator.isPrefixOf (c :: text) = true
    · simp [List.isPrefixOf_iff_prefix.mp here]
    · have other : ¬ separator <+: c :: text := mt List.isPrefixOf_iff_prefix.mpr here
      simp [other]

/-- A text without the first character of the separator is passed over. -/
theorem splitOnceChars_behind {first : Char} {front : List Char} (off : first ∉ front) (separator rest : List Char) :
    splitOnceChars (first :: separator) (front ++ rest) =
      (splitOnceChars (first :: separator) rest).map fun parts => (front ++ parts.1, parts.2) := by
  induction front with
  | nil => simp
  | cons c front ih =>
    have other : first ≠ c := fun same => off (same ▸ List.mem_cons_self)
    rw [List.cons_append, splitOnceChars, ih fun member => off (List.mem_cons_of_mem _ member)]
    simp [List.isPrefixOf, other, Function.comp_def]

theorem splitOnceChars_here (separator rest : List Char) (present : separator ≠ []) :
    splitOnceChars separator (separator ++ rest) = some ([], rest) := by
  cases separator with
  | nil => exact absurd rfl present
  | cons c separator => simp [splitOnceChars]

/-- The first mark cuts a text. -/
theorem splitOnceChars_first {mark : Char} {before : List Char} (first : mark ∉ before) (after : List Char) :
    splitOnceChars [mark] (before ++ mark :: after) = some (before, after) := by
  have here := splitOnceChars_here [mark] after (List.cons_ne_nil mark [])
  rw [List.singleton_append] at here
  rw [splitOnceChars_behind first, here]
  simp

theorem join_toList (separator : String) (parts : List String) :
    (join separator parts).toList = separator.toList.intercalate (parts.map String.toList) := by
  induction parts with
  | nil => rfl
  | cons part rest ih =>
    cases rest with
    | nil => simp [join]
    | cons next rest =>
      rw [join, String.toList_append, String.toList_append, ih]
      · simp [List.intercalate]
      · exact List.cons_ne_nil _ _

theorem mem_dropWhile (text : List Char) {c : Char} (member : c ∈ text) :
    isWhitespace c = true ∨ c ∈ text.dropWhile isWhitespace := by
  rw [← List.takeWhile_append_dropWhile (l := text) (p := isWhitespace)] at member
  rcases List.mem_append.mp member with before | after
  · exact .inl (List.mem_takeWhile_imp before)
  · exact .inr after

/-- Trimming removes white space only. -/
theorem mem_trim (text : String) {c : Char} (member : c ∈ text.toList) :
    isWhitespace c = true ∨ c ∈ (trim text).toList := by
  rcases mem_dropWhile text.toList member with blank | inner
  · exact .inl blank
  · rcases mem_dropWhile (trimStart text.toList).reverse (List.mem_reverse.mpr inner) with blank | inner
    · exact .inl blank
    · exact .inr (by simpa [trim, trimEnd] using inner)

/-- Trimming takes white space off both ends. -/
theorem trim_split (text : String) : ∃ before after : List Char,
    text.toList = before ++ ((trim text).toList ++ after) ∧
      (∀ c ∈ before, isWhitespace c = true) ∧ ∀ c ∈ after, isWhitespace c = true := by
  refine ⟨text.toList.takeWhile isWhitespace,
    ((trimStart text.toList).reverse.takeWhile isWhitespace).reverse, ?_, ?_, ?_⟩
  · rw [trim, String.toList_ofList, trimEnd, ← List.reverse_append, List.takeWhile_append_dropWhile,
      List.reverse_reverse, trimStart, List.takeWhile_append_dropWhile]
  · exact fun c member => List.mem_takeWhile_imp member
  · exact fun c member => List.mem_takeWhile_imp (List.mem_reverse.mp member)

theorem dropWhile_solid {text : List Char} (solid : ∀ c ∈ text, isWhitespace c = false) :
    text.dropWhile isWhitespace = text := by
  cases text with
  | nil => rfl
  | cons c rest => simp [solid c List.mem_cons_self]

theorem trim_solid {text : String} (solid : ∀ c ∈ text.toList, isWhitespace c = false) :
    trim text = text := by
  have reversed : ∀ c ∈ text.toList.reverse, isWhitespace c = false := by simpa using solid
  rw [trim, trimStart, dropWhile_solid solid, trimEnd, dropWhile_solid reversed,
    List.reverse_reverse, String.ofList_toList]

/-- White space at neither end: trimming changes nothing. -/
theorem trim_ends {text : String} {first last : Char} {middle : List Char}
    (shape : text.toList = first :: (middle ++ [last])) (head : isWhitespace first = false)
    (tail : isWhitespace last = false) : trim text = text := by
  have start : trimStart text.toList = text.toList := by simp [trimStart, shape, head]
  have finish : text.toList.reverse.dropWhile isWhitespace = text.toList.reverse := by
    simp [shape, tail]
  rw [trim, start, trimEnd, finish, List.reverse_reverse, String.ofList_toList]

section Numbers

theorem trimEnd_front (text : List Char) : trimEnd text <+: text :=
  List.rdropWhile_prefix isWhitespace (l := text)

/-- Trimming at the end leaves a text alone that does not start with white space. -/
theorem trimStart_trimEnd (text : List Char) :
    trimStart (trimEnd (trimStart text)) = trimEnd (trimStart text) := by
  obtain ⟨tail, whole⟩ := trimEnd_front (trimStart text)
  cases kept : trimEnd (trimStart text) with
  | nil => rfl
  | cons c rest =>
    have shape : trimStart text = c :: (rest ++ tail) := by rw [← whole, kept]; rfl
    have solid : isWhitespace c = false := by
      have first := List.head?_dropWhile_not isWhitespace text
      rw [← trimStart, shape] at first
      exact first
    simp [trimStart, solid]

/-- Trimming twice is trimming once. -/
theorem trim_trim_chars (text : List Char) :
    trimEnd (trimStart (trimEnd (trimStart text))) = trimEnd (trimStart text) := by
  rw [trimStart_trimEnd]
  exact List.rdropWhile_idempotent isWhitespace (trimStart text)

theorem trim_length (text : List Char) : (trimEnd (trimStart text)).length ≤ text.length :=
  (trimEnd_front _).length_le.trans (List.dropWhile_suffix isWhitespace).length_le

theorem digits_of_parse {limit n : Nat} {digits : List Char}
    (parsed : (if digits.isEmpty || !digits.all Char.isDigit then none
      else
        let value := digits.foldl (fun n c => n * 10 + (c.toNat - 48)) 0
        if value ≤ limit then some value else none) = some n) :
    ∀ c ∈ digits, c.isDigit = true := by
  split at parsed
  · cases parsed
  · next some =>
    simp only [Bool.or_eq_true, Bool.not_eq_true', not_or, Bool.not_eq_false] at some
    exact List.all_eq_true.mp some.2

/-- A number text has digits and perhaps a plus sign, nothing else. -/
theorem parseUnsigned_chars {limit n : Nat} {text : List Char}
    (parsed : parseUnsigned limit text = some n) : ∀ c ∈ text, c.isDigit = true ∨ c = '+' := by
  intro c member
  rw [parseUnsigned] at parsed
  by_cases plus : text.head? = some '+'
  · rw [if_pos plus] at parsed
    obtain ⟨rest, rfl⟩ : ∃ rest, text = '+' :: rest := List.head?_eq_some_iff.mp plus
    rcases List.mem_cons.mp member with rfl | later
    · exact .inr rfl
    · exact .inl (digits_of_parse parsed c later)
  · rw [if_neg plus] at parsed
    exact .inl (digits_of_parse parsed c member)

/-- The decimal digits of a number read as the number. -/
theorem foldl_toDigits (n : Nat) :
    (Nat.toDigits 10 n).foldl (fun n c => n * 10 + (c.toNat - 48)) 0 = n := by
  have round := Nat.ofDigitChars_ten_toDigits (n := n)
  rw [Nat.ofDigitChars_eq_foldl] at round
  simp only [Nat.mul_comm 10] at round
  exact round

/-- Digits are read as their number, if it fits. -/
theorem parseUnsigned_digits {limit : Nat} {text : List Char} (present : text ≠ [])
    (digits : ∀ c ∈ text, c.isDigit = true)
    (fits : text.foldl (fun n c => n * 10 + (c.toNat - 48)) 0 ≤ limit) :
    parseUnsigned limit text = some (text.foldl (fun n c => n * 10 + (c.toNat - 48)) 0) := by
  have plain : text.head? ≠ some '+' := by
    intro plus
    have impossible := digits '+' (List.mem_of_mem_head? plus)
    revert impossible
    decide
  have whole : (text.isEmpty || !text.all Char.isDigit) = false := by
    rw [List.isEmpty_eq_false_iff.mpr present, List.all_eq_true.mpr digits]
    rfl
  simp only [parseUnsigned, if_neg plain, whole, if_pos fits]
  rfl

theorem parseUnsigned_toDigits {limit n : Nat} (fits : n ≤ limit) :
    parseUnsigned limit (Nat.toDigits 10 n) = some n := by
  have read := foldl_toDigits n
  refine (parseUnsigned_digits Nat.toDigits_ne_nil (fun c member => ?_) (by omega)).trans (congrArg some read)
  exact Nat.isDigit_of_mem_toDigits (by decide) (by decide) member

/-- The text of an integer: its digits, after a minus sign if it is negative. -/
theorem toString_toList (n : Int64) : (toString n).toList =
    if 0 ≤ n.toInt then Nat.toDigits 10 n.toInt.toNat
    else '-' :: Nat.toDigits 10 (-n.toInt).toNat := by
  change (toString n.toInt).toList = _
  rw [Int.toString_eq_repr, Int.repr_eq_if]
  by_cases sign : 0 ≤ n.toInt
  · rw [if_pos sign, if_pos sign, Nat.toList_repr]
  · rw [if_neg sign, if_neg sign, String.toList_append, Nat.toList_repr]
    rfl

theorem digit_toDigits (m : Nat) : ∀ c ∈ Nat.toDigits 10 m, c.isDigit = true := fun _ member =>
  Nat.isDigit_of_mem_toDigits (by decide) (by decide) member

theorem toString_ne_nil (n : Int64) : (toString n).toList ≠ [] := by
  rw [toString_toList]
  split
  · exact Nat.toDigits_ne_nil
  · exact List.cons_ne_nil _ _

theorem toString_chars (n : Int64) : ∀ c ∈ (toString n).toList, c.isDigit = true ∨ c = '-' := by
  intro c member
  rw [toString_toList] at member
  split at member
  · exact .inl (digit_toDigits _ c member)
  · rcases List.mem_cons.mp member with rfl | later
    · exact .inr rfl
    · exact .inl (digit_toDigits _ c later)

theorem solid_digit {c : Char} (digit : c.isDigit = true) : isWhitespace c = false := by
  simp only [Char.isDigit, Bool.and_eq_true, decide_eq_true_eq, ge_iff_le, UInt32.le_iff_toNat_le] at digit
  have low : 48 ≤ c.toNat := digit.1
  have high : c.toNat ≤ 57 := digit.2
  simp only [isWhitespace, Bool.or_eq_false_iff, decide_eq_false_iff_not, Bool.and_eq_false_iff]
  omega

theorem head_toDigits (m : Nat) (c : Char) (sign : c.isDigit = false) (rest : List Char) :
    Nat.toDigits 10 m ≠ c :: rest := by
  intro shape
  have digit : c.isDigit = true := digit_toDigits m c (by simp [shape])
  rw [sign] at digit
  cases digit

theorem parseI64_toString (n : Int64) : parseI64 (toString n).toList = some n := by
  have low := n.le_toInt
  have high := n.toInt_lt
  rw [parseI64.eq_def, toString_toList]
  by_cases sign : 0 ≤ n.toInt
  · rw [if_pos sign]
    split
    · next digits shape => exact absurd shape (head_toDigits _ _ (by decide) _)
    · rw [parseUnsigned_toDigits (by omega), Option.map_some, Int.toNat_of_nonneg sign,
        Int64.ofInt_toInt]
  · rw [if_neg sign]
    have plain : (Nat.toDigits 10 (-n.toInt).toNat).head? ≠ some '+' := by
      intro plus
      obtain ⟨rest, shape⟩ := List.head?_eq_some_iff.mp plus
      exact head_toDigits _ _ (by decide) _ shape
    simp only [if_neg plain]
    rw [parseUnsigned_toDigits (by omega), Option.map_some, Int.toNat_of_nonneg (by omega), Int.neg_neg,
      Int64.ofInt_toInt]

end Numbers

section Ends

theorem trimEnd_eq {text : List Char} {last : Char} (final : text.getLast? = some last)
    (solid : isWhitespace last = false) : trimEnd text = text := by
  obtain ⟨front, rfl⟩ := List.getLast?_eq_some_iff.mp final
  simp [trimEnd, solid]

/-- White space at neither end. -/
structure Firm (text : List Char) : Prop where
  head : ∃ c rest, text = c :: rest ∧ isWhitespace c = false
  last : ∃ front c, text = front ++ [c] ∧ isWhitespace c = false

theorem Firm.trim {text : List Char} (firm : Firm text) : trimChars text = text := by
  obtain ⟨c, rest, shape, solid⟩ := firm.head
  obtain ⟨front, d, ending, closed⟩ := firm.last
  have start : trimStart text = text := by simp [trimStart, shape, solid]
  rw [trimChars, start]
  exact trimEnd_eq (by rw [ending, List.getLast?_concat]) closed

theorem Firm.ne_nil {text : List Char} (firm : Firm text) : text ≠ [] := by
  obtain ⟨c, rest, rfl, _⟩ := firm.head
  exact List.cons_ne_nil c rest

theorem Firm.isEmpty {text : List Char} (firm : Firm text) : text.isEmpty = false :=
  List.isEmpty_eq_false_iff.mpr firm.ne_nil

/-- A firm start and a firm end. -/
theorem Firm.around {a b : List Char} (first : Firm a) (second : Firm b) (middle : List Char) :
    Firm (a ++ (middle ++ b)) := by
  obtain ⟨c, rest, rfl, solid⟩ := first.head
  obtain ⟨front, d, rfl, closed⟩ := second.last
  exact ⟨⟨c, rest ++ (middle ++ (front ++ [d])), rfl, solid⟩,
    ⟨c :: rest ++ (middle ++ front), d, by simp, closed⟩⟩

theorem firm_wrapped {o c : Char} (text : List Char) (opens : isWhitespace o = false)
    (closes : isWhitespace c = false) : Firm (o :: (text ++ [c])) :=
  ⟨⟨o, text ++ [c], rfl, opens⟩, ⟨o :: text, c, rfl, closes⟩⟩

theorem firm_solid {text : List Char} (present : text ≠ []) (solid : ∀ c ∈ text, isWhitespace c = false) :
    Firm text := by
  refine ⟨?_, ?_⟩
  · obtain ⟨c, rest, rfl⟩ := List.exists_cons_of_ne_nil present
    exact ⟨c, rest, rfl, solid c List.mem_cons_self⟩
  · refine ⟨text.dropLast, text.getLast present, (List.dropLast_append_getLast present).symm, ?_⟩
    exact solid _ (List.getLast_mem present)

theorem firm_single {c : Char} (solid : isWhitespace c = false) : Firm [c] :=
  firm_solid (List.cons_ne_nil c []) fun d member => by rwa [List.mem_singleton.mp member]

theorem trim_blank_end {text : List Char} (firm : Firm text) : trimChars (text ++ [' ']) = text := by
  obtain ⟨c, rest, shape, solid⟩ := firm.head
  obtain ⟨front, d, ending, closed⟩ := firm.last
  have start : trimStart (text ++ [' ']) = text ++ [' '] := by simp [trimStart, shape, solid]
  have blank : isWhitespace ' ' = true := by decide
  rw [trimChars, start, trimEnd, List.reverse_append, List.reverse_singleton, List.singleton_append,
    List.dropWhile_cons_of_pos blank]
  exact trimEnd_eq (by rw [ending, List.getLast?_concat]) closed

theorem trim_blank_start {text : List Char} (firm : Firm text) : trimChars (' ' :: text) = text := by
  have blank : isWhitespace ' ' = true := by decide
  rw [trimChars, trimStart, List.dropWhile_cons_of_pos blank]
  exact firm.trim

end Ends

end Text
