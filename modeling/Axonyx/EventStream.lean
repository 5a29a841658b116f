import Axonyx.Text
import Mathlib.Algebra.Order.BigOperators.Group.List

/-! The event-stream format as a client reads it: lines end at a line feed, a carriage return or
both, a blank line dispatches the data of its block, and what is unfinished at the end is lost. -/
namespace EventStream

section Lines

/-- The finished lines of a text behind an open one; right after a carriage return a line feed
ends no other line. -/
def lines (line : List Char) (afterReturn : Bool) : List Char → List (List Char)
  | [] => []
  | c :: rest =>
    if c = '\n' then if afterReturn then lines [] false rest else line :: lines [] false rest
    else if c = '\r' then line :: lines [] true rest
    else lines (line ++ [c]) false rest

def isPlain (c : Char) : Bool := c ≠ '\n' && c ≠ '\r'

/-- The text with every line end written as a line feed. -/
def normalized (afterReturn : Bool) : List Char → List Char
  | [] => []
  | c :: rest =>
    if c = '\n' then if afterReturn then normalized false rest else '\n' :: normalized false rest
    else if c = '\r' then '\n' :: normalized true rest
    else c :: normalized false rest

theorem lines_plain {word : List Char} (plain : ∀ c ∈ word, isPlain c = true)
    (line rest : List Char) : lines line false (word ++ rest) = lines (line ++ word) false rest := by
  induction word generalizing line with
  | nil => rw [List.nil_append, List.append_nil]
  | cons c word ih =>
    have here := plain c List.mem_cons_self
    simp only [isPlain, Bool.and_eq_true, decide_eq_true_eq] at here
    rw [List.cons_append, lines, if_neg here.1, if_neg here.2,
      ih (fun c member => plain c (List.mem_cons_of_mem _ member)), List.append_assoc]
    rfl

theorem lines_word {word : List Char} (plain : ∀ c ∈ word, isPlain c = true) (rest : List Char) :
    lines [] false (word ++ '\n' :: rest) = word :: lines [] false rest := by
  rw [lines_plain plain, lines, if_pos rfl]
  rfl

/-- Behind a line feed the lines of a text are those of the rest. -/
theorem lines_append (line : List Char) (afterReturn : Bool) (text rest : List Char) :
    lines line afterReturn (text ++ '\n' :: rest) =
      lines line afterReturn (text ++ ['\n']) ++ lines [] false rest := by
  induction text generalizing line afterReturn with
  | nil =>
    simp only [List.nil_append, lines, if_pos]
    cases afterReturn <;> rfl
  | cons c text ih =>
    simp only [List.cons_append, lines]
    split
    · split
      · exact ih [] false
      · rw [ih [] false, List.cons_append]
    · split
      · rw [ih [] true, List.cons_append]
      · exact ih _ false

/-- No line has a line end in it. -/
theorem plain_of_lines {line : List Char} {afterReturn : Bool} {text : List Char}
    (plain : ∀ c ∈ line, isPlain c = true) {found : List Char}
    (member : found ∈ lines line afterReturn text) : ∀ c ∈ found, isPlain c = true := by
  induction text generalizing line afterReturn with
  | nil => cases member
  | cons c text ih =>
    have empty : ∀ c ∈ ([] : List Char), isPlain c = true := nofun
    rw [lines] at member
    split at member
    · split at member
      · exact ih empty member
      · rcases List.mem_cons.mp member with rfl | later
        · exact plain
        · exact ih empty later
    next notFeed =>
      split at member
      · rcases List.mem_cons.mp member with rfl | later
        · exact plain
        · exact ih empty later
      next notReturn =>
        refine ih (fun d among => ?_) member
        rcases List.mem_append.mp among with old | new
        · exact plain d old
        · rw [List.mem_singleton.mp new, isPlain, decide_eq_true notFeed, decide_eq_true notReturn]
          rfl

end Lines

section Blocks

structure Message where
  id : Option String
  event : Option String
  retry : Option Nat
  data : String
  deriving DecidableEq, Repr

/-- What a block has set so far; its data end with a line feed for every line. -/
structure Block where
  id : Option String := none
  event : Option String := none
  retry : Option Nat := none
  data : List Char := []

/-- The name and the value of a line, without the blank behind the colon. -/
def field (line : List Char) : List Char × List Char :=
  match Text.splitOnceChars [':'] line with
  | none => (line, [])
  | some (name, value) => (name, if value.head? = some ' ' then value.tail else value)

def number (digits : List Char) : Option Nat :=
  if digits.isEmpty || !digits.all Char.isDigit then none
  else some (digits.foldl (fun n c => n * 10 + (c.toNat - 48)) 0)

/-- A line that sets a field; comments and unknown fields set none. -/
def Block.set (block : Block) (line : List Char) : Block :=
  let (name, value) := field line
  if name = "data".toList then { block with data := block.data ++ value ++ ['\n'] }
  else if name = "event".toList then { block with event := some (.ofList value) }
  else if name = "id".toList then
    if '\x00' ∈ value then block else { block with id := some (.ofList value) }
  else if name = "retry".toList then { block with retry := (number value).or block.retry }
  else block

/-- A block without data is dropped. -/
def Block.dispatch (block : Block) : List Message :=
  if block.data.isEmpty then []
  else [{ block with data := .ofList block.data.dropLast }]

def read : Block → List (List Char) → List Message
  | _, [] => []
  | block, line :: rest =>
    if line.isEmpty then block.dispatch ++ read {} rest else read (block.set line) rest

def decode (stream : String) : List Message :=
  let text := stream.toList
  read {} (lines [] false (if text.head? = some '\uFEFF' then text.tail else text))

/-- The field splits the line. -/
theorem field_length (line : List Char) : (field line).1.length + (field line).2.length ≤ line.length := by
  unfold field
  cases found : Text.splitOnceChars [':'] line with
  | none => exact Nat.le_refl _
  | some parts =>
    obtain ⟨name, value⟩ := parts
    obtain ⟨rfl, _⟩ := Text.splitOnceChars_eq_some found
    dsimp only
    have shorter : (if value.head? = some ' ' then value.tail else value).length ≤ value.length := by
      split
      · rw [List.length_tail]
        exact Nat.sub_le _ _
      · exact Nat.le_refl _
    simp only [List.length_append, List.length_singleton]
    omega

theorem mem_field {line : List Char} {c : Char} (member : c ∈ (field line).2) : c ∈ line := by
  unfold field at member
  cases found : Text.splitOnceChars [':'] line with
  | none =>
    rw [found] at member
    cases member
  | some parts =>
    obtain ⟨name, value⟩ := parts
    obtain ⟨rfl, _⟩ := Text.splitOnceChars_eq_some found
    rw [found] at member
    dsimp only at member
    refine List.mem_append_right _ ?_
    split at member
    · exact List.mem_of_mem_tail member
    · exact member

end Blocks

section Weights

/-- How much a line adds to the data. -/
def weight (line : List Char) : Nat :=
  if (field line).1 = "data".toList then (field line).2.length + 1 else 0

theorem weight_le (line : List Char) : weight line ≤ line.length := by
  have parts := field_length line
  unfold weight
  split
  · next data =>
    rw [data] at parts
    have name : "data".toList.length = 4 := rfl
    omega
  · exact Nat.zero_le _

theorem set_weight (block : Block) (line : List Char) :
    (block.set line).data.length = block.data.length + weight line := by
  unfold Block.set weight
  generalize field line = parts
  obtain ⟨name, value⟩ := parts
  dsimp only
  by_cases data : name = "data".toList
  · rw [if_pos data, if_pos data]
    simp only [List.length_append, List.length_singleton]
    omega
  · rw [if_neg data, if_neg data]
    repeat' split
    all_goals rfl

/-- The messages of a text have no more data than its lines set. -/
theorem read_weight (block : Block) (text : List (List Char)) :
    ((read block text).map fun message => message.data.length + 1).sum ≤
      block.data.length + (text.map weight).sum := by
  induction text generalizing block with
  | nil => exact Nat.zero_le _
  | cons line rest ih =>
    rw [read, List.map_cons, List.sum_cons]
    split
    · have later := ih {}
      have dispatched : ((block.dispatch).map fun message => message.data.length + 1).sum ≤
          block.data.length := by
        unfold Block.dispatch
        split
        · exact Nat.zero_le _
        · next present =>
          rw [List.isEmpty_iff] at present
          have positive := List.length_pos_iff.mpr present
          simp only [List.map_cons, List.map_nil, List.sum_cons, List.sum_nil, String.length_ofList,
            List.length_dropLast]
          omega
      have empty : ({} : Block).data.length = 0 := rfl
      rw [List.map_append, List.sum_append]
      omega
    · have later := ih (block.set line)
      rw [set_weight] at later
      omega

/-- The lines that a line feed finishes set no more data than their text has characters. -/
theorem lines_weight (line : List Char) (afterReturn : Bool) (text : List Char) :
    ((lines line afterReturn (text ++ ['\n'])).map weight).sum ≤ line.length + text.length := by
  have one := weight_le line
  induction text generalizing line afterReturn with
  | nil =>
    rw [List.nil_append, lines, if_pos rfl]
    cases afterReturn <;> simp [lines, one]
  | cons c text ih =>
    have fresh (flag : Bool) := ih [] flag (weight_le [])
    simp only [List.length_nil, Nat.zero_add] at fresh
    rw [List.cons_append, lines, List.length_cons]
    split
    · split
      · have rest := fresh false
        omega
      · have rest := fresh false
        rw [List.map_cons, List.sum_cons]
        omega
    · split
      · have rest := fresh true
        rw [List.map_cons, List.sum_cons]
        omega
      · have rest := ih (line ++ [c]) false (weight_le _)
        rw [List.length_append, List.length_singleton] at rest
        omega

end Weights

section Fields

/-- A text without a line end in it. -/
def OneLine (text : String) : Prop := ∀ c ∈ text.toList, isPlain c = true

structure Block.Clean (block : Block) : Prop where
  id : ∀ text, block.id = some text → OneLine text ∧ '\x00' ∉ text.toList
  event : ∀ text, block.event = some text → OneLine text

theorem Block.clean_empty : ({} : Block).Clean :=
  ⟨fun _ set => (by cases set), fun _ set => (by cases set)⟩

theorem Block.Clean.set {block : Block} (clean : block.Clean) {line : List Char}
    (plain : ∀ c ∈ line, isPlain c = true) : (block.set line).Clean := by
  have value : OneLine (.ofList (field line).2) := by
    intro c member
    rw [String.toList_ofList] at member
    exact plain c (mem_field member)
  unfold Block.set
  generalize field line = parts at value
  obtain ⟨name, found⟩ := parts
  dsimp only at value ⊢
  split
  · exact ⟨clean.id, clean.event⟩
  · split
    · exact ⟨clean.id, fun text set => Option.some.inj set ▸ value⟩
    · split
      · split
        · exact clean
        · next absent =>
          refine ⟨fun text set => Option.some.inj set ▸ ⟨value, ?_⟩, clean.event⟩
          rwa [String.toList_ofList]
      · split
        · exact ⟨clean.id, clean.event⟩
        · exact clean

/-- No message has a line end in its id or its name, or a NUL in its id. -/
theorem read_clean {block : Block} (clean : block.Clean) {text : List (List Char)}
    (plain : ∀ line ∈ text, ∀ c ∈ line, isPlain c = true) {message : Message}
    (member : message ∈ read block text) :
    (∀ id, message.id = some id → OneLine id ∧ '\x00' ∉ id.toList) ∧
      ∀ event, message.event = some event → OneLine event := by
  induction text generalizing block with
  | nil => cases member
  | cons line rest ih =>
    have later : ∀ line ∈ rest, ∀ c ∈ line, isPlain c = true :=
      fun line among => plain line (List.mem_cons_of_mem _ among)
    rw [read] at member
    split at member
    · rcases List.mem_append.mp member with here | there
      · unfold Block.dispatch at here
        split at here
        · cases here
        · rw [List.mem_singleton] at here
          subst here
          exact ⟨clean.id, clean.event⟩
      · exact ih Block.clean_empty later there
    · exact ih (clean.set (plain line List.mem_cons_self)) later member

end Fields

end EventStream
