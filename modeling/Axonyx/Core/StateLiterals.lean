import Axonyx.Core.StateBranches

/-! The texts of initial values in the markers of the page. Inside lists and objects they can be
told apart; a string of its own is written bare, and may look like any other value. -/
namespace Axonyx.Core

section Characters

/-- The value of hexadecimal digits. -/
def hexNumber (digits : List Char) : Nat :=
  digits.foldl (fun n c => n * 16 + (if c.isDigit then c.toNat - 48 else c.toNat - 87)) 0

theorem hexPadded_control : ∀ n : Fin 160, (hexPadded n).length = 4 ∧ hexNumber (hexPadded n) = n := by decide +kernel

theorem control_small {c : Char} (control : isControl c = true) : c.toNat < 160 := by
  simp only [isControl, Bool.or_eq_true, Bool.and_eq_true, decide_eq_true_eq] at control
  omega

/-- How a character is written: by itself, by a letter behind a backslash, or by its number. -/
inductive CharWritten (c : Char) : List Char → Prop where
  | plain (bare : c ≠ '"' ∧ c ≠ '\\') : CharWritten c [c]
  | letter (d : Char) (short : (c, d) ∈ [('"', '"'), ('\\', '\\'), ('\n', 'n'), ('\r', 'r'), ('\t', 't')]) :
    CharWritten c ['\\', d]
  | number (control : isControl c = true) : CharWritten c ('\\' :: 'u' :: hexPadded c.toNat)

theorem quoteStateChar_written (c : Char) : CharWritten c (quoteStateChar c) := by
  unfold quoteStateChar
  split
  · next same => exact .letter '"' (by simp [same])
  · next quote =>
    split
    · next same => exact .letter '\\' (by simp [same])
    · next slash =>
      split
      · next same => exact .letter 'n' (by simp [same])
      · split
        · next same => exact .letter 'r' (by simp [same])
        · split
          · next same => exact .letter 't' (by simp [same])
          · split
            · next control => exact .number control
            · exact .plain ⟨quote, slash⟩

theorem letter_inj {c d e : Char} (first : (c, e) ∈ [('"', '"'), ('\\', '\\'), ('\n', 'n'), ('\r', 'r'), ('\t', 't')])
    (second : (d, e) ∈ [('"', '"'), ('\\', '\\'), ('\n', 'n'), ('\r', 'r'), ('\t', 't')]) : c = d := by
  simp only [List.mem_cons, Prod.mk.injEq, List.not_mem_nil, or_false] at first second
  rcases first with ⟨rfl, rfl⟩ | ⟨rfl, rfl⟩ | ⟨rfl, rfl⟩ | ⟨rfl, rfl⟩ | ⟨rfl, rfl⟩
  all_goals
    simp at second
    exact second.symm

theorem letter_ne_number {c : Char} : (c, 'u') ∉ [('"', '"'), ('\\', '\\'), ('\n', 'n'), ('\r', 'r'), ('\t', 't')] := by
  simp

/-- No way of writing a character is the start of another one. -/
theorem written_unique {c d : Char} {front other x y : List Char} (first : CharWritten c front) (second : CharWritten d other)
    (same : front ++ x = other ++ y) : c = d ∧ x = y := by
  cases first with
  | plain bare =>
    cases second with
    | plain _ => exact List.cons.inj same
    | letter e short => exact absurd (List.cons.inj same).1 bare.2
    | number control => exact absurd (List.cons.inj same).1 bare.2
  | letter e short =>
    cases second with
    | plain bare => exact absurd (List.cons.inj same).1.symm bare.2
    | letter f other =>
      obtain ⟨rfl, rest⟩ := List.cons.inj (List.cons.inj same).2
      exact ⟨letter_inj short other, rest⟩
    | number control =>
      obtain ⟨rfl, _⟩ := List.cons.inj (List.cons.inj same).2
      exact absurd short letter_ne_number
  | number control =>
    cases second with
    | plain bare => exact absurd (List.cons.inj same).1.symm bare.2
    | letter f other =>
      obtain ⟨rfl, _⟩ := List.cons.inj (List.cons.inj same).2
      exact absurd other letter_ne_number
    | number other =>
      have first := hexPadded_control ⟨c.toNat, control_small control⟩
      have second := hexPadded_control ⟨d.toNat, control_small other⟩
      have digits := (List.cons.inj (List.cons.inj same).2).2
      obtain ⟨numbers, rest⟩ := List.append_inj digits (first.1.trans second.1.symm)
      refine ⟨?_, rest⟩
      have equal : c.toNat = d.toNat := first.2.symm.trans ((congrArg hexNumber numbers).trans second.2)
      exact Char.toNat_inj.mp equal

theorem written_ne_quote {c : Char} {front : List Char} (written : CharWritten c front) (x : List Char) :
    (front ++ x).head? ≠ some '"' := by
  cases written with
  | plain bare => simpa using bare.1
  | letter d short => simp
  | number control => simp

/-- A string's end is the first quote that is not written with a backslash. -/
theorem quoted_unique {s t : List Char} {x y : List Char}
    (same : s.flatMap quoteStateChar ++ '"' :: x = t.flatMap quoteStateChar ++ '"' :: y) : s = t ∧ x = y := by
  induction s generalizing t with
  | nil =>
    cases t with
    | nil => exact ⟨rfl, (List.cons.inj same).2⟩
    | cons d rest =>
      have off := written_ne_quote (quoteStateChar_written d) (rest.flatMap quoteStateChar ++ '"' :: y)
      rw [← List.append_assoc, ← List.flatMap_cons, ← same] at off
      exact absurd rfl off
  | cons c others ih =>
    cases t with
    | nil =>
      have off := written_ne_quote (quoteStateChar_written c) (others.flatMap quoteStateChar ++ '"' :: x)
      rw [← List.append_assoc, ← List.flatMap_cons, same] at off
      exact absurd rfl off
    | cons d rest =>
      rw [List.flatMap_cons, List.flatMap_cons, List.append_assoc, List.append_assoc] at same
      obtain ⟨rfl, later⟩ := written_unique (quoteStateChar_written c) (quoteStateChar_written d) same
      obtain ⟨rfl, last⟩ := ih later
      exact ⟨rfl, last⟩

theorem quoteStateString_toList (value : String) :
    (quoteStateString value).toList = '"' :: (value.toList.flatMap quoteStateChar ++ ['"']) := by
  simp [quoteStateString]

theorem quoteStateString_unique {s t : String} {x y : List Char}
    (same : (quoteStateString s).toList ++ x = (quoteStateString t).toList ++ y) : s = t ∧ x = y := by
  rw [quoteStateString_toList, quoteStateString_toList, List.cons_append, List.cons_append, List.append_assoc,
    List.append_assoc] at same
  obtain ⟨chars, rest⟩ := quoted_unique (List.cons.inj same).2
  exact ⟨String.toList_inj.mp chars, rest⟩

end Characters

section Values

variable {F : Type} [Float64 F]

mutual

/-- Two values with the same content; an integer and a float are compared as floats. -/
def Alike : AxValue F → AxValue F → Prop
  | .null, .null => True
  | .string a, .string b => a = b
  | .bool a, .bool b => a = b
  | .number a, .number b => a = b
  | .float a, .float b => a.get = b.get
  | .number a, .float b => FloatOps.ofInt a = b.get
  | .float a, .number b => a.get = FloatOps.ofInt b
  | .list a, .list b => AlikeItems a b
  | .record a, .record b => AlikeFields a b
  | _, _ => False

def AlikeItems : List (AxValue F) → List (AxValue F) → Prop
  | [], [] => True
  | a :: as, b :: bs => Alike a b ∧ AlikeItems as bs
  | _, _ => False

def AlikeFields : List (String × AxValue F) → List (String × AxValue F) → Prop
  | [], [] => True
  | (m, a) :: as, (n, b) :: bs => m = n ∧ Alike a b ∧ AlikeFields as bs
  | _, _ => False

end

/-- How the standard library writes and reads floats: the text of a finite float is a decimal that
reads back as the float, and the text of an integer reads as the integer's float. -/
structure FloatTexts (parseF64 : String → Option F) : Prop where
  present : ∀ f : AxFloat F, (FloatOps.display f.get).toList ≠ []
  decimal : ∀ f : AxFloat F, ∀ c ∈ (FloatOps.display f.get).toList, c.isDigit = true ∨ c = '-' ∨ c = '.'
  back : ∀ f : AxFloat F, parseF64 (FloatOps.display f.get) = some f.get
  integer : ∀ n : Int64, parseF64 (toString n.toInt) = some (FloatOps.ofInt n)

end Values

section Ends

/-- What can follow a literal. -/
def Ends (rest : List Char) : Prop := ∀ c, rest.head? = some c → c ∈ [',', ']', '\x7d']

theorem ends_cons {c : Char} (mark : c ∈ [',', ']', '\x7d']) (rest : List Char) : Ends (c :: rest) := by
  intro d same
  obtain rfl := Option.some.inj same
  exact mark

/-- A number ends in front of what is no part of a decimal. -/
theorem number_unique {s t x y : List Char} (first : ∀ c ∈ s, c.isDigit = true ∨ c = '-' ∨ c = '.')
    (second : ∀ c ∈ t, c.isDigit = true ∨ c = '-' ∨ c = '.') (left : Ends x) (right : Ends y)
    (same : s ++ x = t ++ y) : s = t ∧ x = y := by
  have stops {rest : List Char} (ends : Ends rest) (c : Char) (head : rest.head? = some c) :
      ¬(c.isDigit = true ∨ c = '-' ∨ c = '.') := by
    have mark := ends c head
    simp only [List.mem_cons, List.not_mem_nil, or_false] at mark
    rcases mark with rfl | rfl | rfl <;> decide
  induction s generalizing t with
  | nil =>
    cases t with
    | nil => exact ⟨rfl, same⟩
    | cons d rest =>
      exact absurd (second d List.mem_cons_self) (stops left d (by rw [← List.nil_append x, same]; rfl))
  | cons c others ih =>
    cases t with
    | nil => exact absurd (first c List.mem_cons_self) (stops right c (by rw [← List.nil_append y, ← same]; rfl))
    | cons d rest =>
      obtain ⟨rfl, later⟩ := List.cons.inj same
      obtain ⟨rfl, last⟩ := ih (fun e member => first e (List.mem_cons_of_mem _ member))
        (fun e member => second e (List.mem_cons_of_mem _ member)) later
      exact ⟨rfl, last⟩

end Ends

section Texts

variable {F : Type} [Float64 F]

/-- Which kind of value begins with a character. -/
inductive Kind where
  | string | number | bool | null | list | object
  deriving DecidableEq, Repr

def kindAt (c : Char) : Kind :=
  if c = '"' then .string
  else if c = 't' ∨ c = 'f' then .bool
  else if c = 'n' then .null
  else if c = '[' then .list
  else if c = '\x7b' then .object
  else .number

def kindOf : AxExpr F → Kind
  | .string _ => .string
  | .number _ | .float _ => .number
  | .bool _ => .bool
  | .list _ => .list
  | .object _ => .object
  | _ => .null

theorem number_head {text : List Char} (present : text ≠ [])
    (decimal : ∀ c ∈ text, c.isDigit = true ∨ c = '-' ∨ c = '.') : ∃ c rest, text = c :: rest ∧ kindAt c = .number ∧
      c ∉ [',', ']', '\x7d'] := by
  obtain ⟨c, rest, rfl⟩ := List.exists_cons_of_ne_nil present
  have off (d : Char) (mark : d ∈ ['"', 't', 'f', 'n', '[', '\x7b', ',', ']', '\x7d']) : c ≠ d := by
    rintro rfl
    have here := decimal c List.mem_cons_self
    revert here
    simp only [List.mem_cons, List.not_mem_nil, or_false] at mark
    rcases mark with rfl | rfl | rfl | rfl | rfl | rfl | rfl | rfl | rfl <;> decide
  refine ⟨c, rest, rfl, ?_, ?_⟩
  · rw [kindAt, if_neg (off '"' (by simp)), if_neg (not_or.mpr ⟨off 't' (by simp), off 'f' (by simp)⟩),
      if_neg (off 'n' (by simp)), if_neg (off '[' (by simp)), if_neg (off '\x7b' (by simp))]
  · intro mark
    exact off c (List.mem_append_right ['"', 't', 'f', 'n', '[', '\x7b'] mark) rfl

theorem decimal_integer (n : Int64) : ∀ c ∈ (toString n.toInt).toList, c.isDigit = true ∨ c = '-' ∨ c = '.' := by
  intro c member
  rcases Text.toString_chars n c member with digit | sign
  · exact .inl digit
  · exact .inr (.inl sign)

variable {parseF64 : String → Option F} (texts : FloatTexts parseF64)
include texts

/-- The first character of a literal tells what it is. -/
theorem literal_head {expr : AxExpr F} {text : String} (written : literalText quoteStateString expr = some text) :
    ∃ c rest, text.toList = c :: rest ∧ kindAt c = kindOf expr ∧ c ∉ [',', ']', '\x7d'] := by
  cases expr with
  | string value =>
    obtain rfl := Option.some.inj written
    exact ⟨'"', _, quoteStateString_toList value, rfl, by decide⟩
  | number value =>
    obtain rfl := Option.some.inj written
    exact number_head (Text.toString_ne_nil value) (decimal_integer value)
  | float value =>
    obtain rfl := Option.some.inj written
    exact number_head (texts.present value) (texts.decimal value)
  | bool value =>
    obtain rfl := Option.some.inj written
    cases value
    · exact ⟨'f', _, rfl, rfl, by decide⟩
    · exact ⟨'t', _, rfl, rfl, by decide⟩
  | identifier name =>
    simp only [literalText] at written
    split at written
    · obtain rfl := Option.some.inj written
      exact ⟨'n', _, rfl, rfl, by decide⟩
    · cases written
  | list items =>
    obtain ⟨parts, _, rfl⟩ := Option.map_eq_some_iff.mp written
    exact ⟨'[', _, by simp; rfl, rfl, by decide⟩
  | object fields =>
    obtain ⟨parts, _, rfl⟩ := Option.map_eq_some_iff.mp written
    exact ⟨'\x7b', _, by simp; rfl, rfl, by decide⟩
  | unary _ _ | binary _ _ _ | index _ _ | member _ _ | optionalMember _ _ | call _ _ => cases written

end Texts

section Parts

/-- Texts with a comma in front of each. -/
def tailText (parts : List String) : List Char := parts.flatMap fun part => ',' :: part.toList

def bodyText : List String → List Char
  | [] => []
  | first :: rest => first.toList ++ tailText rest

theorem join_comma (parts : List String) : (Text.join "," parts).toList = bodyText parts := by
  rw [Text.join_toList]
  cases parts with
  | nil => rfl
  | cons first rest =>
    rw [bodyText]
    induction rest generalizing first with
    | nil => simp [tailText]
    | cons second rest ih =>
      have later := ih second
      rw [List.map_cons] at later ⊢
      rw [List.map_cons, List.intercalate_cons_cons, later]
      simp [tailText]

theorem tail_ends {close : Char} (mark : close ∈ [',', ']', '\x7d']) (parts : List String) (rest : List Char) :
    Ends (tailText parts ++ close :: rest) := by
  cases parts with
  | nil => exact ends_cons mark rest
  | cons first others => exact ends_cons (by simp) _

/-- The texts begin with something else than the closing bracket. -/
def Opened (close : Char) (parts : List String) : Prop := ∀ part ∈ parts, ∃ c rest, part.toList = c :: rest ∧ c ≠ close

/-- A body ends at its bracket, so that an empty one is no other. -/
theorem body_tail {close : Char} {parts others : List String} {x y : List Char} (first : Opened close parts)
    (second : Opened close others) (same : bodyText parts ++ close :: x = bodyText others ++ close :: y) :
    tailText parts ++ close :: x = tailText others ++ close :: y := by
  cases parts with
  | nil =>
    cases others with
    | nil => exact same
    | cons part rest =>
      obtain ⟨c, more, shape, other⟩ := second part List.mem_cons_self
      rw [bodyText, bodyText, shape] at same
      exact absurd (List.cons.inj same).1.symm other
  | cons part rest =>
    cases others with
    | nil =>
      obtain ⟨c, more, shape, other⟩ := first part List.mem_cons_self
      rw [bodyText, bodyText, shape] at same
      exact absurd (List.cons.inj same).1 other
    | cons other others =>
      have marked := congrArg (',' :: ·) same
      simpa [bodyText, tailText] using marked

end Parts

section Uniqueness

variable {F : Type} [Float64 F] {parseF64 : String → Option F}

theorem items_opened (texts : FloatTexts parseF64) {items : List (AxExpr F)} {parts : List String}
    (written : literalTexts items = some parts) : Opened ']' parts := by
  induction items generalizing parts with
  | nil =>
    obtain rfl := Option.some.inj written
    exact fun _ member => nomatch member
  | cons item items ih =>
    simp only [literalTexts, Option.bind_eq_bind, Option.bind_eq_some_iff] at written
    obtain ⟨text, first, rest, later, same⟩ := written
    obtain rfl := Option.some.inj same
    intro part member
    rcases List.mem_cons.mp member with rfl | behind
    · obtain ⟨c, more, shape, _, other⟩ := literal_head texts first
      exact ⟨c, more, shape, fun close => other (by simp [close])⟩
    · exact ih later part behind

theorem fields_opened {fields : List (String × AxExpr F)} {parts : List String}
    (written : fieldTexts fields = some parts) : Opened '\x7d' parts := by
  induction fields generalizing parts with
  | nil =>
    obtain rfl := Option.some.inj written
    exact fun _ member => nomatch member
  | cons field fields ih =>
    obtain ⟨name, value⟩ := field
    simp only [fieldTexts, Option.bind_eq_bind, Option.bind_eq_some_iff] at written
    obtain ⟨text, _, rest, later, same⟩ := written
    obtain rfl := Option.some.inj same
    intro part member
    rcases List.mem_cons.mp member with rfl | behind
    · have shape : (quoteStateString name ++ ":" ++ text).toList =
          '"' :: (name.toList.flatMap quoteStateChar ++ ['"'] ++ ":".toList ++ text.toList) := by
        rw [String.toList_append, String.toList_append, quoteStateString_toList]
        rfl
      exact ⟨'"', _, shape, by decide⟩
    · exact ih later part behind

mutual

/-- What follows a literal shows where its text ends, and the text what it is. -/
theorem literal_unique (texts : FloatTexts parseF64) {a b : AxExpr F} {s t : String} {x y : List Char}
    (first : literalText quoteStateString a = some s) (second : literalText quoteStateString b = some t)
    (left : Ends x) (right : Ends y) (same : s.toList ++ x = t.toList ++ y) : Alike a.constant b.constant ∧ x = y := by
  have kinds : kindOf a = kindOf b := by
    obtain ⟨c, _, shape, kind, _⟩ := literal_head texts first
    obtain ⟨d, _, other, kind', _⟩ := literal_head texts second
    rw [shape, other] at same
    rw [← kind, ← kind', (List.cons.inj same).1]
  match a with
  | .string value =>
    cases b with
    | string other =>
      obtain rfl := Option.some.inj first
      obtain rfl := Option.some.inj second
      exact quoteStateString_unique same
    | unary _ _ | binary _ _ _ | index _ _ | member _ _ | optionalMember _ _ | call _ _ => cases second
    | _ => cases kinds
  | .number value =>
    obtain rfl := Option.some.inj first
    cases b with
    | number other =>
      obtain rfl := Option.some.inj second
      obtain ⟨chars, rest⟩ := number_unique (decimal_integer value) (decimal_integer other) left right same
      exact ⟨number_text_inj.mp (String.toList_inj.mp chars), rest⟩
    | float other =>
      obtain rfl := Option.some.inj second
      obtain ⟨chars, rest⟩ := number_unique (decimal_integer value) (texts.decimal other) left right same
      have read := texts.integer value
      rw [String.toList_inj.mp chars, texts.back other] at read
      exact ⟨(Option.some.inj read).symm, rest⟩
    | unary _ _ | binary _ _ _ | index _ _ | member _ _ | optionalMember _ _ | call _ _ => cases second
    | _ => cases kinds
  | .float value =>
    obtain rfl := Option.some.inj first
    cases b with
    | number other =>
      obtain rfl := Option.some.inj second
      obtain ⟨chars, rest⟩ := number_unique (texts.decimal value) (decimal_integer other) left right same
      have read := texts.integer other
      rw [← String.toList_inj.mp chars, texts.back value] at read
      exact ⟨Option.some.inj read, rest⟩
    | float other =>
      obtain rfl := Option.some.inj second
      obtain ⟨chars, rest⟩ := number_unique (texts.decimal value) (texts.decimal other) left right same
      have read := texts.back value
      rw [String.toList_inj.mp chars, texts.back other] at read
      exact ⟨(Option.some.inj read).symm, rest⟩
    | unary _ _ | binary _ _ _ | index _ _ | member _ _ | optionalMember _ _ | call _ _ => cases second
    | _ => cases kinds
  | .bool value =>
    cases b with
    | bool other =>
      obtain rfl := Option.some.inj first
      obtain rfl := Option.some.inj second
      cases value <;> cases other
      · exact ⟨rfl, List.append_cancel_left same⟩
      · exact absurd (List.cons.inj same).1 (by decide)
      · exact absurd (List.cons.inj same).1 (by decide)
      · exact ⟨rfl, List.append_cancel_left same⟩
    | unary _ _ | binary _ _ _ | index _ _ | member _ _ | optionalMember _ _ | call _ _ => cases second
    | _ => cases kinds
  | .identifier name =>
    cases b with
    | identifier other =>
      simp only [literalText] at first second
      split at first
      · split at second
        · obtain rfl := Option.some.inj first
          obtain rfl := Option.some.inj second
          exact ⟨trivial, List.append_cancel_left same⟩
        · cases second
      · cases first
    | unary _ _ | binary _ _ _ | index _ _ | member _ _ | optionalMember _ _ | call _ _ => cases second
    | _ => cases kinds
  | .list items =>
    cases b with
    | list others =>
      obtain ⟨parts, some, rfl⟩ := Option.map_eq_some_iff.mp first
      obtain ⟨parts', some', rfl⟩ := Option.map_eq_some_iff.mp second
      simp only [String.toList_append, join_comma, List.append_assoc] at same
      exact items_unique texts some some'
        (body_tail (items_opened texts some) (items_opened texts some') (List.cons.inj same).2)
    | unary _ _ | binary _ _ _ | index _ _ | member _ _ | optionalMember _ _ | call _ _ => cases second
    | _ => cases kinds
  | .object fields =>
    cases b with
    | object others =>
      obtain ⟨parts, some, rfl⟩ := Option.map_eq_some_iff.mp first
      obtain ⟨parts', some', rfl⟩ := Option.map_eq_some_iff.mp second
      simp only [String.toList_append, join_comma, List.append_assoc] at same
      exact fields_unique texts some some'
        (body_tail (fields_opened some) (fields_opened some') (List.cons.inj same).2)
    | unary _ _ | binary _ _ _ | index _ _ | member _ _ | optionalMember _ _ | call _ _ => cases second
    | _ => cases kinds
  | .unary _ _ | .binary _ _ _ | .index _ _ | .member _ _ | .optionalMember _ _ | .call _ _ => cases first

theorem items_unique (texts : FloatTexts parseF64) {items others : List (AxExpr F)} {parts parts' : List String}
    {x y : List Char} (first : literalTexts items = some parts) (second : literalTexts others = some parts')
    (same : tailText parts ++ ']' :: x = tailText parts' ++ ']' :: y) :
    AlikeItems (constants items) (constants others) ∧ x = y := by
  match items, others with
  | [], [] =>
    obtain rfl := Option.some.inj first
    obtain rfl := Option.some.inj second
    exact ⟨trivial, (List.cons.inj same).2⟩
  | [], other :: others =>
    obtain rfl := Option.some.inj first
    simp only [literalTexts, Option.bind_eq_bind, Option.bind_eq_some_iff] at second
    obtain ⟨text, _, rest, _, shape⟩ := second
    obtain rfl := Option.some.inj shape
    exact absurd (List.cons.inj same).1 (by decide)
  | item :: items, [] =>
    obtain rfl := Option.some.inj second
    simp only [literalTexts, Option.bind_eq_bind, Option.bind_eq_some_iff] at first
    obtain ⟨text, _, rest, _, shape⟩ := first
    obtain rfl := Option.some.inj shape
    exact absurd (List.cons.inj same).1 (by decide)
  | item :: items, other :: others =>
    simp only [literalTexts, Option.bind_eq_bind, Option.bind_eq_some_iff] at first second
    obtain ⟨text, here, rest, later, shape⟩ := first
    obtain ⟨text', here', rest', later', shape'⟩ := second
    obtain rfl := Option.some.inj shape
    obtain rfl := Option.some.inj shape'
    simp only [tailText, List.flatMap_cons, List.cons_append, List.append_assoc] at same
    obtain ⟨alike, behind⟩ := literal_unique texts here here' (tail_ends (by simp) rest x) (tail_ends (by simp) rest' y)
      (List.cons.inj same).2
    obtain ⟨alikeRest, last⟩ := items_unique texts later later' behind
    exact ⟨⟨alike, alikeRest⟩, last⟩

theorem fields_unique (texts : FloatTexts parseF64) {fields others : List (String × AxExpr F)}
    {parts parts' : List String} {x y : List Char} (first : fieldTexts fields = some parts)
    (second : fieldTexts others = some parts')
    (same : tailText parts ++ '\x7d' :: x = tailText parts' ++ '\x7d' :: y) :
    AlikeFields (constantFields fields) (constantFields others) ∧ x = y := by
  match fields, others with
  | [], [] =>
    obtain rfl := Option.some.inj first
    obtain rfl := Option.some.inj second
    exact ⟨trivial, (List.cons.inj same).2⟩
  | [], (_, other) :: others =>
    obtain rfl := Option.some.inj first
    simp only [fieldTexts, Option.bind_eq_bind, Option.bind_eq_some_iff] at second
    obtain ⟨text, _, rest, _, shape⟩ := second
    obtain rfl := Option.some.inj shape
    exact absurd (List.cons.inj same).1 (by decide)
  | (_, value) :: fields, [] =>
    obtain rfl := Option.some.inj second
    simp only [fieldTexts, Option.bind_eq_bind, Option.bind_eq_some_iff] at first
    obtain ⟨text, _, rest, _, shape⟩ := first
    obtain rfl := Option.some.inj shape
    exact absurd (List.cons.inj same).1 (by decide)
  | (name, value) :: fields, (name', other) :: others =>
    simp only [fieldTexts, Option.bind_eq_bind, Option.bind_eq_some_iff] at first second
    obtain ⟨text, here, rest, later, shape⟩ := first
    obtain ⟨text', here', rest', later', shape'⟩ := second
    obtain rfl := Option.some.inj shape
    obtain rfl := Option.some.inj shape'
    simp only [tailText, List.flatMap_cons, List.cons_append, List.append_assoc, String.toList_append] at same
    obtain ⟨names, colon⟩ := quoteStateString_unique (List.cons.inj same).2
    obtain ⟨alike, behind⟩ := literal_unique texts here here' (tail_ends (by simp) rest x) (tail_ends (by simp) rest' y)
      (List.cons.inj colon).2
    obtain ⟨alikeRest, last⟩ := fields_unique texts later later' behind
    exact ⟨⟨names, alike, alikeRest⟩, last⟩

end

end Uniqueness

section Types

variable {F : Type} [Float64 F]

/-- Only a string is written in another way on its own than inside a container. -/
theorem literalText_bare {expr : AxExpr F} (other : ∀ value, expr ≠ .string value) :
    stateEventLiteral expr = literalText quoteStateString expr := by
  cases expr with
  | string value => exact absurd rfl (other value)
  | _ => rfl

namespace AxDataContext

variable (context : AxDataContext)

/-- The type has a null and the string that is written like it. -/
def MixesNull (F : Type) [Float64 F] (type : AxType) : Prop :=
  context.acceptsStateInitializer type (.identifier "null" : AxExpr F) = true ∧
    context.acceptsStateInitializer type (.string "null" : AxExpr F) = true

/-- A type with a string and another value of the same text has a null and the string for it. -/
theorem accepts_both {levels : Nat} {type : AxType} (supported : type.supportsClientState = true) {expr : AxExpr F}
    {text : String} (other : ∀ value, expr ≠ .string value) (written : stateEventLiteral expr = some text)
    (accepted : context.acceptsStateInitializerAt levels type expr = true)
    (string : context.acceptsStateInitializerAt levels type (.string text : AxExpr F) = true) :
    context.acceptsStateInitializerAt levels type (.identifier "null" : AxExpr F) = true ∧
      context.acceptsStateInitializerAt levels type (.string "null" : AxExpr F) = true := by
  induction levels generalizing type with
  | zero => cases accepted
  | succ levels ih =>
    cases type with
    | record name =>
      simp only [acceptsStateInitializerAt] at accepted string
      cases union : context.literalUnion name with
      | some literals =>
        cases expr with
        | string value => exact absurd rfl (other value)
        | _ => simp [union] at accepted
      | none => simp [union] at string
    | list item | set item | map key item | result ok error => simp [acceptsStateInitializerAt] at string
    | optional item =>
      simp only [acceptsStateInitializerAt, isNullExpr, Bool.or_eq_true, decide_true, true_or, true_and,
        Bool.false_eq_true, false_or] at accepted string ⊢
      rcases accepted with null | inner
      · cases expr with
        | identifier name =>
          obtain rfl := of_decide_eq_true null
          obtain rfl := Option.some.inj written
          exact string
        | _ => cases null
      · exact (@ih item supported inner string).2
    | «public» item =>
      simp only [acceptsStateInitializerAt] at accepted string ⊢
      exact @ih item supported accepted string
    | json | unknown => exact ⟨rfl, rfl⟩
    | string | dateTime | date | time | uuid =>
      cases expr with
      | string value => exact absurd rfl (other value)
      | _ => cases accepted
    | number | float | int | bool | bytes | fileRef => cases string
    | decimal | file | never | void | secret _ | signal _ | resource _ _ => cases supported

end AxDataContext

end Types

section Bits

/-- Bit patterns with texts that are read back: a float whose shortest decimal was not read back
would be written by its bits and a point. -/
def Bits : Type := F64

/-- A text as a float: an integer is converted, a decimal is rounded. -/
def readFloat (text : String) : Option F64 :=
  if text.toList.getLast? = some '.' then (Text.parseI64 text.toList.dropLast).map Int64.toBitVec
  else match Text.parseI64 text.toList with
    | some n => some (F64.ofInt n)
    | none =>
      let magnitude := text.toList.filter (· ≠ '-')
      let places := (magnitude.dropWhile (· ≠ '.')).length - 1
      (Text.parseI64 (magnitude.filter (· ≠ '.'))).map fun n =>
        F64.round (text.toList.head? = some '-') ((if text.toList.head? = some '-' then -1 else 1) * n.toInt / 10 ^ places)

def isDecimal (text : String) : Bool :=
  !text.toList.isEmpty && text.toList.all fun c => c.isDigit || c = '-' || c = '.'

def bitsText (f : F64) : String := toString (Int64.ofBitVec f).toInt ++ "."

def decimalText (f : F64) : String :=
  if readFloat (F64.display f) = some f ∧ isDecimal (F64.display f) = true then F64.display f else bitsText f

theorem readFloat_bitsText (f : F64) : readFloat (bitsText f) = some f := by
  have last : (bitsText f).toList = (toString (Int64.ofBitVec f).toInt).toList ++ ['.'] := String.toList_append
  have read : Text.parseI64 (toString (Int64.ofBitVec f).toInt).toList = some (Int64.ofBitVec f) :=
    Text.parseI64_toString _
  rw [readFloat, last, List.getLast?_concat, if_pos rfl, List.dropLast_concat, read]
  rfl

theorem readFloat_integer (n : Int64) : readFloat (toString n.toInt) = some (F64.ofInt n) := by
  have noPoint : (toString n.toInt).toList.getLast? ≠ some '.' := by
    intro point
    have digit := Text.toString_chars n '.' (List.mem_of_getLast? point)
    revert digit
    decide
  have read : Text.parseI64 (toString n.toInt).toList = some n := Text.parseI64_toString n
  rw [readFloat, if_neg noPoint, read]

theorem isDecimal_bitsText (f : F64) : isDecimal (bitsText f) = true := by
  have last : (bitsText f).toList = (toString (Int64.ofBitVec f).toInt).toList ++ ['.'] := String.toList_append
  have digits := decimal_integer (Int64.ofBitVec f)
  simp only [isDecimal, last]
  simpa [or_assoc] using digits

theorem decimalText_read (f : F64) : readFloat (decimalText f) = some f ∧ isDecimal (decimalText f) = true := by
  unfold decimalText
  split
  · next checked => exact checked
  · exact ⟨readFloat_bitsText f, isDecimal_bitsText f⟩

attribute [irreducible] decimalText

instance : FloatOps Bits where
  toBinary64 := (inferInstance : Binary64 F64)
  zero := (0#64 : F64)
  neg := F64.neg
  add := F64.add
  sub := F64.sub
  mul := F64.mul
  div := F64.div
  rem := F64.rem
  ofInt := F64.ofInt
  partialCmp := F64.partialCmp
  display := decimalText

instance : Float64 Bits where
  finite_zero := rfl
  eq_comm := @Float64.eq_comm F64 _
  cmp_canonical := @Float64.cmp_canonical F64 _
  neg_canonical := @Float64.neg_canonical F64 _
  add_canonical := @Float64.add_canonical F64 _
  sub_canonical := @Float64.sub_canonical F64 _
  mul_canonical := @Float64.mul_canonical F64 _
  div_canonical := @Float64.div_canonical F64 _
  rem_canonical := @Float64.rem_canonical F64 _

theorem bits_texts : FloatTexts (F := Bits) readFloat where
  present f := by
    have read := (decimalText_read f.get).2
    simp only [isDecimal, Bool.and_eq_true, Bool.not_eq_true', List.isEmpty_eq_false_iff] at read
    exact read.1
  decimal f c member := by
    have read := (decimalText_read f.get).2
    simp only [isDecimal, Bool.and_eq_true, List.all_eq_true, Bool.or_eq_true, decide_eq_true_eq, or_assoc] at read
    exact read.2 c member
  back f := (decimalText_read f.get).1
  integer n := readFloat_integer n

end Bits

end Axonyx.Core
