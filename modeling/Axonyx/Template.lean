import Mathlib.Data.List.Basic

/-! Query texts with quoted names and placeholders. A template keeps the value of each
placeholder where it stands; rendering numbers the placeholders, and a reader of the
rendered text finds exactly the template's names and placeholders again. -/
namespace Template

/-- How a dialect writes names and placeholders: `$n` or `?`. -/
structure Style where
  quote : Char
  numbered : Bool

def Style.mark (style : Style) (index : Nat) : String :=
  if style.numbered then "$" ++ toString index else "?"

def Style.name (style : Style) (name : String) : String :=
  String.singleton style.quote ++ name ++ String.singleton style.quote

inductive Piece (V : Type) where
  | text (text : String)
  | name (name : String)
  | hole (value : V)

variable {V : Type}

/-- The text of a template whose first placeholder has number `index`. -/
def render (style : Style) : Nat → List (Piece V) → String
  | _, [] => ""
  | index, .text text :: rest => text ++ render style index rest
  | index, .name name :: rest => style.name name ++ render style index rest
  | index, .hole _ :: rest => style.mark index ++ render style (index + 1) rest

def holes : List (Piece V) → List V
  | [] => []
  | .hole value :: rest => value :: holes rest
  | .text _ :: rest => holes rest
  | .name _ :: rest => holes rest

def names : List (Piece V) → List String
  | [] => []
  | .name name :: rest => name :: names rest
  | .text _ :: rest => names rest
  | .hole _ :: rest => names rest

/-- Pieces between separators. -/
def joinPieces (separator : String) : List (List (Piece V)) → List (Piece V)
  | [] => []
  | [pieces] => pieces
  | pieces :: rest => pieces ++ .text separator :: joinPieces separator rest

/-- The layout alone, without the values. -/
def forget : Piece V → Piece Unit
  | .text text => .text text
  | .name name => .name name
  | .hole _ => .hole ()

section Composition

variable (style : Style)

@[simp] theorem holes_append (a b : List (Piece V)) : holes (a ++ b) = holes a ++ holes b := by
  induction a with
  | nil => rfl
  | cons piece rest ih => cases piece <;> simp [holes, ih]

@[simp] theorem names_append (a b : List (Piece V)) : names (a ++ b) = names a ++ names b := by
  induction a with
  | nil => rfl
  | cons piece rest ih => cases piece <;> simp [names, ih]

theorem names_joinPieces (separator : String) (parts : List (List (Piece V))) :
    names (joinPieces separator parts) = parts.flatMap names := by
  induction parts with
  | nil => rfl
  | cons part rest ih =>
    cases rest with
    | nil => simp [joinPieces]
    | cons next rest =>
      rw [joinPieces, names_append, names, ih]
      · rfl
      · exact List.cons_ne_nil next rest

theorem holes_joinPieces (separator : String) (parts : List (List (Piece V))) :
    holes (joinPieces separator parts) = parts.flatMap holes := by
  induction parts with
  | nil => rfl
  | cons part rest ih =>
    cases rest with
    | nil => simp [joinPieces]
    | cons next rest =>
      rw [joinPieces, holes_append, holes, ih]
      · rfl
      · exact List.cons_ne_nil next rest

theorem forget_joinPieces (separator : String) (parts : List (List (Piece V))) :
    (joinPieces separator parts).map forget = joinPieces separator (parts.map (List.map forget)) := by
  induction parts with
  | nil => rfl
  | cons part rest ih =>
    cases rest with
    | nil => rfl
    | cons next rest =>
      rw [joinPieces, List.map_append, List.map_cons, ih]
      · rfl
      · exact List.cons_ne_nil next rest

/-- Without placeholders the numbering does not matter. -/
theorem render_static {pieces : List (Piece V)} (static : holes pieces = []) (i j : Nat) :
    render style i pieces = render style j pieces := by
  induction pieces with
  | nil => rfl
  | cons piece rest ih =>
    cases piece with
    | text text => simp [render, ih static]
    | name name => simp [render, ih static]
    | hole value => cases static

theorem render_append (index : Nat) (a b : List (Piece V)) : render style index (a ++ b) =
    render style index a ++ render style (index + (holes a).length) b := by
  induction a generalizing index with
  | nil => simp [render, holes]
  | cons piece rest ih =>
    cases piece with
    | text text => simp [render, holes, ih, String.append_assoc]
    | name name => simp [render, holes, ih, String.append_assoc]
    | hole value =>
      simp only [List.cons_append, render, holes, ih, String.append_assoc, List.length_cons]
      rw [Nat.add_assoc, Nat.add_comm 1]

/-- The text depends on the layout only. -/
theorem render_forget (index : Nat) (pieces : List (Piece V)) :
    render style index (pieces.map forget) = render style index pieces := by
  induction pieces generalizing index with
  | nil => rfl
  | cons piece rest ih => cases piece <;> simp [render, forget, ih]

end Composition

section Reading

inductive Token where
  | name (name : List Char)
  | hole (index : List Char)
  | char (c : Char)
  deriving DecidableEq, Repr

inductive Mode where
  | plain
  | quoted (seen : List Char)
  | number (seen : List Char)
  deriving DecidableEq, Repr

structure Reader where
  out : List Token
  mode : Mode

variable (style : Style)

def openToken (out : List Token) (c : Char) : Reader :=
  if c = style.quote then ⟨out, .quoted []⟩
  else if style.numbered ∧ c = '$' then ⟨out, .number []⟩
  else if style.numbered = false ∧ c = '?' then ⟨out ++ [.hole []], .plain⟩
  else ⟨out ++ [.char c], .plain⟩

def readChar : Reader → Char → Reader
  | ⟨out, .plain⟩, c => openToken style out c
  | ⟨out, .quoted seen⟩, c =>
    if c = style.quote then ⟨out ++ [.name seen], .plain⟩ else ⟨out, .quoted (seen ++ [c])⟩
  | ⟨out, .number seen⟩, c =>
    if c.isDigit then ⟨out, .number (seen ++ [c])⟩ else openToken style (out ++ [.hole seen]) c

def Reader.finish : Reader → List Token
  | ⟨out, .plain⟩ => out
  | ⟨out, .quoted seen⟩ => out ++ [.name seen]
  | ⟨out, .number seen⟩ => out ++ [.hole seen]

/-- Read a text from left to right into names, placeholders and other characters. -/
def read (text : String) : List Token :=
  (text.toList.foldl (readChar style) ⟨[], .plain⟩).finish

/-- What a reader should find. -/
def tokens : Nat → List (Piece V) → List Token
  | _, [] => []
  | index, .text text :: rest => text.toList.map .char ++ tokens index rest
  | index, .name name :: rest => .name name.toList :: tokens index rest
  | index, .hole _ :: rest =>
    .hole (if style.numbered then (toString index).toList else []) :: tokens (index + 1) rest

def placeholders : List Token → List (List Char)
  | [] => []
  | .hole index :: rest => index :: placeholders rest
  | .name _ :: rest => placeholders rest
  | .char _ :: rest => placeholders rest

def quotedNames : List Token → List (List Char)
  | [] => []
  | .name name :: rest => name :: quotedNames rest
  | .hole _ :: rest => quotedNames rest
  | .char _ :: rest => quotedNames rest

def plainChar (c : Char) : Bool := c ≠ '"' && c ≠ '\x60' && c ≠ '$' && c ≠ '?'

/-- Texts without quotes or marks, and no digit right after a placeholder; `after` tells that
one stands before. -/
def Clean : Bool → List (Piece V) → Prop
  | _, [] => True
  | after, .text text :: rest => text.toList ≠ [] ∧ (∀ c ∈ text.toList, plainChar c = true) ∧
      (after = true → ∀ c ∈ text.toList.head?, c.isDigit = false) ∧ Clean false rest
  | _, .name _ :: rest => Clean false rest
  | _, .hole _ :: rest => Clean true rest

theorem foldl_plain {text : List Char} (legal : ∀ c ∈ text, plainChar c = true)
    (quote : style.quote = '"' ∨ style.quote = '\x60') (out : List Token) :
    text.foldl (readChar style) ⟨out, .plain⟩ = ⟨out ++ text.map .char, .plain⟩ := by
  induction text generalizing out with
  | nil => simp
  | cons c rest ih =>
    have first := legal c List.mem_cons_self
    simp only [plainChar, Bool.and_eq_true, decide_eq_true_eq] at first
    have ordinary : c ≠ style.quote := by
      rcases quote with same | same <;> rw [same]
      · exact first.1.1.1
      · exact first.1.1.2
    have step : readChar style ⟨out, .plain⟩ c = ⟨out ++ [.char c], .plain⟩ := by
      simp [readChar, openToken, ordinary, first.1.2, first.2]
    rw [List.foldl_cons, step, ih fun d member => legal d (List.mem_cons_of_mem _ member)]
    simp

theorem foldl_quoted {name : List Char} (legal : ∀ c ∈ name, c ≠ style.quote) (out : List Token)
    (seen : List Char) :
    name.foldl (readChar style) ⟨out, .quoted seen⟩ = ⟨out, .quoted (seen ++ name)⟩ := by
  induction name generalizing seen with
  | nil => simp
  | cons c rest ih =>
    have step : readChar style ⟨out, .quoted seen⟩ c = ⟨out, .quoted (seen ++ [c])⟩ := by
      simp [readChar, legal c List.mem_cons_self]
    rw [List.foldl_cons, step, ih fun d member => legal d (List.mem_cons_of_mem _ member)]
    simp

theorem foldl_number {digits : List Char} (legal : ∀ c ∈ digits, c.isDigit = true)
    (out : List Token) (seen : List Char) :
    digits.foldl (readChar style) ⟨out, .number seen⟩ = ⟨out, .number (seen ++ digits)⟩ := by
  induction digits generalizing seen with
  | nil => simp
  | cons c rest ih =>
    have step : readChar style ⟨out, .number seen⟩ c = ⟨out, .number (seen ++ [c])⟩ := by
      simp [readChar, legal c List.mem_cons_self]
    rw [List.foldl_cons, step, ih fun d member => legal d (List.mem_cons_of_mem _ member)]
    simp

/-- The reader after complete pieces: in plain text, or behind a placeholder's digits. -/
inductive Settled : Reader → List Token → Bool → Prop
  | plain (out : List Token) : Settled ⟨out, .plain⟩ out false
  | marked (out : List Token) : Settled ⟨out, .plain⟩ out true
  | number (out : List Token) (seen : List Char) :
      Settled ⟨out, .number seen⟩ (out ++ [.hole seen]) true

theorem Settled.finish {reader : Reader} {out : List Token} {after : Bool}
    (settled : Settled reader out after) : reader.finish = out := by
  cases settled <;> rfl

/-- A character that is no digit ends the digits of a placeholder. -/
theorem Settled.readChar {reader : Reader} {out : List Token} {after : Bool}
    (settled : Settled reader out after) {c : Char} (stops : after = true → c.isDigit = false) :
    readChar style reader c = openToken style out c := by
  cases settled with
  | plain | marked => rfl
  | number out seen => simp [Template.readChar, stops rfl]

theorem foldl_text {reader : Reader} {out : List Token} {after : Bool}
    (settled : Settled reader out after) {text : List Char}
    (quote : style.quote = '"' ∨ style.quote = '\x60') (nonempty : text ≠ [])
    (legal : ∀ c ∈ text, plainChar c = true)
    (stops : after = true → ∀ c ∈ text.head?, c.isDigit = false) :
    text.foldl (readChar style) reader = ⟨out ++ text.map .char, .plain⟩ := by
  cases text with
  | nil => exact absurd rfl nonempty
  | cons c rest =>
    rw [List.foldl_cons, settled.readChar style fun h => stops h c rfl]
    exact foldl_plain style legal quote out

theorem foldl_name {reader : Reader} {out : List Token} {after : Bool}
    (settled : Settled reader out after) (name : String)
    (quote : style.quote = '"' ∨ style.quote = '\x60')
    (legal : ∀ c ∈ name.toList, c ≠ style.quote) :
    (style.name name).toList.foldl (readChar style) reader = ⟨out ++ [.name name.toList], .plain⟩ := by
  have letter : style.quote.isDigit = false := by rcases quote with same | same <;> rw [same] <;> rfl
  have begins : openToken style out style.quote = ⟨out, .quoted []⟩ := by simp [openToken]
  simp only [Style.name, String.toList_append, String.toList_singleton, List.foldl_append,
    List.foldl_cons, List.foldl_nil]
  rw [settled.readChar style fun _ => letter, begins, foldl_quoted style legal]
  simp [Template.readChar]

theorem foldl_mark {reader : Reader} {out : List Token} {after : Bool}
    (settled : Settled reader out after) (quote : style.quote = '"' ∨ style.quote = '\x60')
    (index : Nat) : Settled ((style.mark index).toList.foldl (readChar style) reader)
      (out ++ [.hole (if style.numbered then (toString index).toList else [])]) true := by
  unfold Style.mark
  cases numbered : style.numbered with
  | false =>
    have apart : '?' ≠ style.quote := by rcases quote with same | same <;> rw [same] <;> decide
    have step : openToken style out '?' = ⟨out ++ [.hole []], .plain⟩ := by
      simp [openToken, apart, numbered]
    simp only [Bool.false_eq_true, ↓reduceIte]
    have mark : "?".toList = ['?'] := rfl
    rw [mark, List.foldl_cons, settled.readChar style fun _ => rfl, step]
    exact .marked _
  | true =>
    have apart : '$' ≠ style.quote := by rcases quote with same | same <;> rw [same] <;> decide
    have step : openToken style out '$' = ⟨out, .number []⟩ := by simp [openToken, apart, numbered]
    have digits : ∀ c ∈ (toString index).toList, c.isDigit = true := by
      intro c member
      rw [Nat.toString_eq_repr, Nat.toList_repr] at member
      exact Nat.isDigit_of_mem_toDigits (by decide) (by decide) member
    simp only [↓reduceIte, String.toList_append]
    have mark : "$".toList = ['$'] := rfl
    rw [mark, List.foldl_append, List.foldl_cons, settled.readChar style fun _ => rfl, step,
      List.foldl_nil, foldl_number style digits]
    exact .number out _

theorem foldl_render {pieces : List (Piece V)} {after : Bool} {reader : Reader}
    {out : List Token} (settled : Settled reader out after)
    (quote : style.quote = '"' ∨ style.quote = '\x60') (clean : Clean after pieces)
    (legal : ∀ name ∈ names pieces, ∀ c ∈ name.toList, c ≠ style.quote) (index : Nat) :
    ((render style index pieces).toList.foldl (readChar style) reader).finish =
      out ++ tokens style index pieces := by
  induction pieces generalizing after reader out index with
  | nil => simp [render, tokens, settled.finish]
  | cons piece rest ih =>
    cases piece with
    | text text =>
      obtain ⟨nonempty, plain, stops, clean⟩ := clean
      rw [render, String.toList_append, List.foldl_append,
        foldl_text style settled quote nonempty plain stops, ih (.plain _) clean legal]
      simp [tokens]
    | name name =>
      have first := legal name List.mem_cons_self
      rw [render, String.toList_append, List.foldl_append, foldl_name style settled name quote first,
        ih (.plain _) clean fun other member => legal other (List.mem_cons_of_mem _ member)]
      simp [tokens]
    | hole value =>
      rw [render, String.toList_append, List.foldl_append,
        ih (foldl_mark style settled quote index) clean legal]
      simp [tokens]

/-- Reading a rendered template finds its own names and placeholders. -/
theorem read_render {pieces : List (Piece V)} (quote : style.quote = '"' ∨ style.quote = '\x60')
    (clean : Clean false pieces)
    (legal : ∀ name ∈ names pieces, ∀ c ∈ name.toList, c ≠ style.quote) (index : Nat) :
    read style (render style index pieces) = tokens style index pieces := by
  rw [read, foldl_render style (.plain []) quote clean legal]
  rfl

theorem placeholders_tokens (index : Nat) (pieces : List (Piece V)) :
    placeholders (tokens style index pieces) = (List.range' index (holes pieces).length).map
      fun k => if style.numbered then (toString k).toList else [] := by
  have skip (text : List Char) (rest : List Token) :
      placeholders (text.map .char ++ rest) = placeholders rest := by
    induction text with
    | nil => rfl
    | cons c text ih => simpa [placeholders] using ih
  induction pieces generalizing index with
  | nil => rfl
  | cons piece rest ih =>
    cases piece with
    | text text => rw [tokens, skip, ih, holes]
    | name name => rw [tokens, placeholders, ih, holes]
    | hole value => rw [tokens, placeholders, ih, holes, List.length_cons, List.range'_succ, List.map_cons]

theorem quotedNames_tokens (index : Nat) (pieces : List (Piece V)) :
    quotedNames (tokens style index pieces) = (names pieces).map String.toList := by
  have skip (text : List Char) (rest : List Token) :
      quotedNames (text.map .char ++ rest) = quotedNames rest := by
    induction text with
    | nil => rfl
    | cons c text ih => simpa [quotedNames] using ih
  induction pieces generalizing index with
  | nil => rfl
  | cons piece rest ih =>
    cases piece with
    | text text => rw [tokens, skip, ih, names]
    | name name => rw [tokens, quotedNames, ih, names, List.map_cons]
    | hole value => rw [tokens, quotedNames, ih, names]

end Reading

section Clean

theorem Clean.weaken {pieces : List (Piece V)} {after : Bool} (clean : Clean true pieces) :
    Clean after pieces := by
  cases pieces with
  | nil => trivial
  | cons piece rest =>
    cases piece with
    | text text => exact ⟨clean.1, clean.2.1, fun _ => clean.2.2.1 rfl, clean.2.2.2⟩
    | name | hole => exact clean

theorem Clean.append {a b : List (Piece V)} {after : Bool} (first : Clean after a)
    (second : Clean true b) : Clean after (a ++ b) := by
  induction a generalizing after with
  | nil => exact second.weaken
  | cons piece rest ih =>
    cases piece with
    | text text => exact ⟨first.1, first.2.1, first.2.2.1, ih first.2.2.2⟩
    | name name => exact ih first
    | hole value => exact ih first

theorem Clean.unmarked {pieces : List (Piece V)} {after : Bool} (clean : Clean after pieces) :
    Clean false pieces := by
  cases after with
  | false => exact clean
  | true => exact clean.weaken

/-- A text that may stand behind a placeholder. -/
def plainText (text : String) : Bool :=
  !text.toList.isEmpty && text.toList.all plainChar && text.toList.head?.all fun c => !c.isDigit

theorem Clean.text {text : String} {rest : List (Piece V)} {after : Bool}
    (plain : plainText text = true) (clean : Clean false rest) : Clean after (.text text :: rest) := by
  simp only [plainText, Bool.and_eq_true, Bool.not_eq_true', List.isEmpty_eq_false_iff,
    List.all_eq_true, Option.all_eq_true_iff_get] at plain
  obtain ⟨⟨nonempty, legal⟩, first⟩ := plain
  refine ⟨nonempty, legal, fun _ c member => ?_, clean⟩
  have head := first (Option.isSome_of_mem member)
  rwa [Option.get_of_mem _ member] at head

theorem Clean.last {text : String} {after : Bool} (plain : plainText text = true) :
    Clean after [(.text text : Piece V)] :=
  Clean.text plain trivial

theorem Clean.join {parts : List (List (Piece V))} {separator : String} {after : Bool}
    (between : plainText separator = true) (clean : ∀ part ∈ parts, Clean after part) :
    Clean after (joinPieces separator parts) := by
  induction parts with
  | nil => trivial
  | cons part rest ih =>
    cases rest with
    | nil => exact clean part List.mem_cons_self
    | cons next rest =>
      have later := ih fun other member => clean other (List.mem_cons_of_mem _ member)
      exact (clean part List.mem_cons_self).append (Clean.text between later.unmarked)

end Clean

end Template
