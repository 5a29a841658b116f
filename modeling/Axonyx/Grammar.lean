import Mathlib.Data.List.Basic

/-! Parsers over lists of tokens that read a value and hand on the rest, and what they read of
the tokens that spell a value: the value itself, whatever follows, unless that continues it. -/
namespace Grammar

/-- A value at the front of a list of tokens, and what is left. -/
abbrev Parser (τ α : Type) := List τ → Option (α × List τ)

variable {τ α β : Type}

def expect (token : τ → Bool) : Parser τ Unit
  | first :: rest => if token first then some ((), rest) else none
  | [] => none

/-- Items with separators between them, at most `fuel` of them. -/
def sepBy (separator : τ → Bool) (item : Parser τ α) : Nat → Parser τ (List α)
  | 0, _ => none
  | fuel + 1, text =>
    (item text).bind fun (first, text) =>
      match expect separator text with
      | some ((), text) => (sepBy separator item fuel text).map fun (rest, text) => (first :: rest, text)
      | none => some ([first], text)

def separated (separator : τ → Bool) (item : Parser τ α) : Parser τ (List α) :=
  fun text => sepBy separator item (text.length + 1) text

/-- Items as long as one opens. -/
def manyUpTo (opening : τ → Bool) (item : Parser τ α) : Nat → Parser τ (List α)
  | 0, _ => none
  | fuel + 1, text =>
    match expect opening text with
    | none => some ([], text)
    | some ((), text) => (item text).bind fun (first, text) =>
        (manyUpTo opening item fuel text).map fun (rest, text) => (first :: rest, text)

def many (opening : τ → Bool) (item : Parser τ α) : Parser τ (List α) :=
  fun text => manyUpTo opening item (text.length + 1) text

/-- The end of a parser: a value that needs no token. -/
def done (value : α) : Parser τ α := fun text => some (value, text)

def andThen (first : Parser τ α) (next : α → Parser τ β) : Parser τ β :=
  fun text => (first text).bind fun (value, rest) => next value rest

/-- A clause behind a keyword, or no clause. -/
def clause (keyword : τ → Bool) (absent : α) (body : Parser τ α) : Parser τ α :=
  fun text =>
    match expect keyword text with
    | some ((), rest) => body rest
    | none => some (absent, text)

/-- The tokens of items with a separator between them. -/
def joined (separator : τ) : List (List τ) → List τ
  | [] => []
  | [item] => item
  | item :: rest => item ++ separator :: joined separator rest

/-- No token that continues what was read. -/
def Stops (continues : τ → Bool) (rest : List τ) : Prop := ∀ token ∈ rest.head?, continues token = false

/-- The parser reads this value from its tokens in front of any others that do not continue it. -/
def Reads (parser : Parser τ α) (continues : τ → Bool) (text : List τ) (value : α) : Prop :=
  ∀ rest, Stops continues rest → parser (text ++ rest) = some (value, rest)

section Rules

variable {continues continues' : τ → Bool} {text : List τ}

@[simp] theorem stops_nil : Stops continues [] := fun _ member => nomatch member

@[simp] theorem stops_cons {token : τ} {rest : List τ} :
    Stops continues (token :: rest) ↔ continues token = false := by
  simp [Stops]

theorem stops_or {rest : List τ} : Stops (fun token => continues token || continues' token) rest ↔
    Stops continues rest ∧ Stops continues' rest := by
  cases rest <;> simp

theorem Reads.mono {parser : Parser τ α} {value : α} (reads : Reads parser continues text value)
    (more : ∀ token, continues token = true → continues' token = true) :
    Reads parser continues' text value := by
  intro rest stops
  apply reads rest
  intro token member
  cases continued : continues token with
  | false => rfl
  | true =>
    have stopped := stops token member
    rw [more token continued] at stopped
    cases stopped

theorem expect_cons {token : τ → Bool} {first : τ} (rest : List τ) (same : token first = true) :
    expect token (first :: rest) = some ((), rest) := by
  rw [expect, if_pos same]

theorem expect_stops {token : τ → Bool} {rest : List τ} (stops : Stops token rest) :
    expect token rest = none := by
  cases rest with
  | nil => rfl
  | cons first rest => rw [expect, stops first rfl]; rfl

theorem Reads.done (value : α) : Reads (Grammar.done value) continues ([] : List τ) value :=
  fun _ _ => rfl

theorem Reads.token {token : τ → Bool} {first : τ} (same : token first = true) :
    Reads (expect token) continues [first] () :=
  fun rest _ => expect_cons rest same

/-- One parser after the other; the second one's tokens do not continue the first one's. -/
theorem Reads.andThen {first : Parser τ α} {next : α → Parser τ β} {more : List τ} {value : α}
    {result : β} (reads : Reads first continues text value)
    (apart : ∀ rest, Stops continues' rest → Stops continues (more ++ rest))
    (later : Reads (next value) continues' more result) :
    Reads (Grammar.andThen first next) continues' (text ++ more) result := by
  intro rest stops
  rw [Grammar.andThen, List.append_assoc, reads _ (apart rest stops)]
  exact later rest stops

/-- A token in front. -/
theorem Reads.keyword {token : τ → Bool} {next : Unit → Parser τ β} {first : τ} {more : List τ}
    {result : β} (same : token first = true) (later : Reads (next ()) continues more result) :
    Reads (Grammar.andThen (expect token) next) continues (first :: more) result := by
  intro rest stops
  rw [Grammar.andThen, List.cons_append, expect_cons _ same]
  exact later rest stops

theorem Reads.absent {keyword : τ → Bool} {absent : α} {body : Parser τ α} :
    Reads (clause keyword absent body) (fun token => keyword token || continues token) [] absent := by
  intro rest stops
  rw [clause, List.nil_append, expect_stops (stops_or.mp stops).1]

theorem Reads.present {keyword : τ → Bool} {absent value : α} {body : Parser τ α} {first : τ}
    (same : keyword first = true) (reads : Reads body continues text value) :
    Reads (clause keyword absent body) (fun token => keyword token || continues token)
      (first :: text) value := by
  intro rest stops
  rw [clause, List.cons_append, expect_cons _ same]
  exact reads rest (stops_or.mp stops).2

variable {separator : τ} {isSeparator : τ → Bool} {item : Parser τ α} {spell : α → List τ}

/-- One item more in front of a list that is read. -/
theorem sepBy_cons {first : α} {text rest : List τ} {others : List α} {fuel : Nat}
    (head : item (spell first ++ separator :: text) = some (first, separator :: text))
    (here : isSeparator separator = true)
    (tail : sepBy isSeparator item fuel text = some (others, rest)) :
    sepBy isSeparator item (fuel + 1) (spell first ++ separator :: text) =
      some (first :: others, rest) := by
  rw [sepBy, head]
  simp [expect, here, tail]

theorem sepBy_reads (here : isSeparator separator = true) (apart : continues separator = false)
    {values : List α} (some_value : values ≠ [])
    (each : ∀ value ∈ values, Reads item continues (spell value) value) {fuel : Nat}
    (enough : values.length ≤ fuel) :
    Reads (sepBy isSeparator item fuel) (fun token => isSeparator token || continues token)
      (joined separator (values.map spell)) values := by
  intro rest stops
  obtain ⟨free, ends⟩ := stops_or.mp stops
  induction values generalizing fuel with
  | nil => exact absurd rfl some_value
  | cons first others ih =>
    obtain ⟨head, tail⟩ := List.forall_mem_cons.mp each
    cases fuel with
    | zero => simp at enough
    | succ fuel =>
      cases others with
      | nil =>
        rw [List.map_cons, List.map_nil, joined, sepBy, head rest ends]
        simp only [Option.bind_some, expect_stops free]
      | cons next others =>
        have shorter : (next :: others).length ≤ fuel := by
          simp only [List.length_cons] at enough ⊢
          omega
        have later := ih (List.cons_ne_nil _ _) tail shorter
        rw [List.map_cons, List.map_cons, joined, List.append_assoc, List.cons_append]
        · exact sepBy_cons (head _ (stops_cons.mpr apart)) here later
        · exact List.cons_ne_nil _ _

theorem joined_length {items : List (List τ)} : items.length ≤ (joined separator items).length + 1 := by
  induction items with
  | nil => simp
  | cons item rest ih =>
    cases rest with
    | nil => simp
    | cons next rest =>
      rw [joined]
      · simp only [List.length_cons, List.length_append] at ih ⊢
        omega
      · exact List.cons_ne_nil _ _

/-- A nonempty list is read up to what continues neither the list nor its last item. -/
theorem separated_reads (here : isSeparator separator = true) (apart : continues separator = false)
    {values : List α} (some_value : values ≠ [])
    (each : ∀ value ∈ values, Reads item continues (spell value) value) :
    Reads (separated isSeparator item) (fun token => isSeparator token || continues token)
      (joined separator (values.map spell)) values := by
  intro rest stops
  refine sepBy_reads here apart some_value each ?_ rest stops
  have long := @joined_length _ separator (values.map spell)
  simp only [List.length_map, List.length_append] at long ⊢
  omega

variable {opening : τ} {isOpening : τ → Bool}

theorem manyUpTo_reads (here : isOpening opening = true) (apart : continues opening = false)
    {values : List α} (each : ∀ value ∈ values, Reads item continues (spell value) value)
    {fuel : Nat} (enough : values.length < fuel) :
    Reads (manyUpTo isOpening item fuel) (fun token => isOpening token || continues token)
      (values.flatMap fun value => opening :: spell value) values := by
  intro rest stops
  obtain ⟨free, ends⟩ := stops_or.mp stops
  induction values generalizing fuel with
  | nil =>
    cases fuel with
    | zero => simp at enough
    | succ fuel => rw [List.flatMap_nil, List.nil_append, manyUpTo, expect_stops free]
  | cons first others ih =>
    obtain ⟨head, tail⟩ := List.forall_mem_cons.mp each
    cases fuel with
    | zero => simp at enough
    | succ fuel =>
      have shorter : others.length < fuel := by
        simp only [List.length_cons] at enough
        omega
      have later := ih tail shorter
      have between : Stops continues
          ((others.flatMap fun value => opening :: spell value) ++ rest) := by
        cases others with
        | nil => exact ends
        | cons => exact stops_cons.mpr apart
      simp only [List.flatMap_cons, List.cons_append, List.append_assoc]
      rw [manyUpTo, expect_cons _ here]
      simp only [head _ between, Option.bind_some, later, Option.map_some]

theorem many_reads (here : isOpening opening = true) (apart : continues opening = false)
    {values : List α} (each : ∀ value ∈ values, Reads item continues (spell value) value) :
    Reads (many isOpening item) (fun token => isOpening token || continues token)
      (values.flatMap fun value => opening :: spell value) values := by
  intro rest stops
  refine manyUpTo_reads here apart each ?_ rest stops
  have long : values.length ≤ (values.flatMap fun value => opening :: spell value).length := by
    clear each stops
    induction values with
    | nil => exact Nat.zero_le _
    | cons first others ih =>
      simp only [List.length_cons, List.flatMap_cons, List.length_append]
      omega
  simp only [List.length_append]
  omega

end Rules

end Grammar
