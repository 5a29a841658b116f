import Axonyx.SqlText.Tokens

/-! The statements of the four kinds that a data plan needs, their tokens, and a parser for
them. In some dialects an `offset` may only stand behind a `limit`. -/
namespace SqlText

open Grammar hiding Reads
open Grammar (andThen done)

section Syntax

structure Dialect extends Template.Style where
  /-- `offset` is legal without `limit`. -/
  offsetAlone : Bool

structure ColumnRef where
  table : Option String
  column : String
  deriving DecidableEq, Repr

inductive Operand (V : Type) where
  | column (ref : ColumnRef)
  | value (value : V)
  | number (n : Nat)
  deriving DecidableEq, Repr

inductive Comparison where
  | eq
  | ne
  deriving DecidableEq, Repr

inductive Predicate (V : Type) where
  | compare (left : Operand V) (op : Comparison) (right : Operand V)
  | isNull (operand : Operand V) (negated : Bool)
  | inList (operand : Operand V) (negated : Bool) (values : List (Operand V))
  deriving DecidableEq, Repr

inductive Direction where
  | asc
  | desc
  deriving DecidableEq, Repr

structure Join (V : Type) where
  table : String
  on : List (Predicate V)
  deriving DecidableEq, Repr

structure Select (V : Type) where
  star : Option String
  table : String
  joins : List (Join V)
  filters : List (Predicate V)
  orders : List (ColumnRef × Direction)
  limit : Option Nat
  offset : Option Nat
  deriving DecidableEq, Repr

inductive Statement (V : Type) where
  | select (select : Select V)
  | insert (table : String) (columns : List String) (values : List (Operand V))
  | update (table : String) (assignments : List (String × Operand V)) (filters : List (Predicate V))
  | delete (table : String) (filters : List (Predicate V))
  deriving DecidableEq, Repr

end Syntax

variable {V : Type}

section Spelling

def ColumnRef.tokens : ColumnRef → List (Tok V)
  | ⟨some table, column⟩ => [.name table, .symbol ".", .name column]
  | ⟨none, column⟩ => [.name column]

def Operand.tokens : Operand V → List (Tok V)
  | .column ref => ref.tokens
  | .value v => [.mark v]
  | .number n => [.number n]

def Comparison.symbol : Comparison → String
  | .eq => "="
  | .ne => "!="

def Predicate.tokens : Predicate V → List (Tok V)
  | .compare left op right => left.tokens ++ .symbol op.symbol :: right.tokens
  | .isNull operand false => operand.tokens ++ [.word "is", .word "null"]
  | .isNull operand true => operand.tokens ++ [.word "is", .word "not", .word "null"]
  | .inList operand negated values =>
    operand.tokens ++ (if negated then [.word "not", .word "in"] else [.word "in"]) ++
      .symbol "(" :: joined (.symbol ",") (values.map Operand.tokens) ++ [.symbol ")"]

def conjunction (predicates : List (Predicate V)) : List (Tok V) :=
  joined (.word "and") (predicates.map Predicate.tokens)

def whereTokens (filters : List (Predicate V)) : List (Tok V) :=
  if filters.isEmpty then [] else .word "where" :: conjunction filters

def Direction.word : Direction → String
  | .asc => "asc"
  | .desc => "desc"

def keyTokens (key : ColumnRef × Direction) : List (Tok V) := key.1.tokens ++ [.word key.2.word]

def orderTokens (keys : List (ColumnRef × Direction)) : List (Tok V) :=
  if keys.isEmpty then [] else
    .word "order" :: .word "by" :: joined (.symbol ",") (keys.map keyTokens)

def numberTokens (keyword : String) : Option Nat → List (Tok V)
  | none => []
  | some n => [.word keyword, .number n]

def Join.tokens (join : Join V) : List (Tok V) :=
  .word "join" :: .name join.table :: .word "on" :: conjunction join.on

def starTokens : Option String → List (Tok V)
  | none => [.symbol "*"]
  | some table => [.name table, .symbol ".", .symbol "*"]

def Select.tokens (select : Select V) : List (Tok V) :=
  .word "select" :: (starTokens select.star ++ .word "from" :: .name select.table ::
    ((select.joins.flatMap fun join => .word "inner" :: join.tokens) ++
      (whereTokens select.filters ++ (orderTokens select.orders ++
        (numberTokens "limit" select.limit ++ numberTokens "offset" select.offset)))))

def assignmentTokens (assignment : String × Operand V) : List (Tok V) :=
  .name assignment.1 :: .symbol "=" :: assignment.2.tokens

def Statement.tokens : Statement V → List (Tok V)
  | .select s => s.tokens
  | .insert table columns values =>
    .word "insert" :: .word "into" :: .name table :: .symbol "(" ::
      (joined (.symbol ",") (columns.map fun column => [.name column]) ++
        .symbol ")" :: .word "values" :: .symbol "(" ::
        (joined (.symbol ",") (values.map Operand.tokens) ++ [.symbol ")"]))
  | .update table assignments filters =>
    .word "update" :: .name table :: .word "set" ::
      (joined (.symbol ",") (assignments.map assignmentTokens) ++ whereTokens filters)
  | .delete table filters => .word "delete" :: .word "from" :: .name table :: whereTokens filters

end Spelling

section Parser

def isWord (text : String) : Tok V → Bool
  | .word other => other == text
  | _ => false

def isSymbol (text : String) : Tok V → Bool
  | .symbol other => other == text
  | _ => false

abbrev Parse (V α : Type) := Parser (Tok V) α

def name : Parse V String
  | .name name :: rest => some (name, rest)
  | _ => none

def column : Parse V ColumnRef :=
  andThen name fun first text =>
    match expect (isSymbol ".") text with
    | some ((), rest) => (name rest).map fun (second, rest) => (⟨some first, second⟩, rest)
    | none => some (⟨none, first⟩, text)

def operand : Parse V (Operand V)
  | .mark value :: rest => some (.value value, rest)
  | .number n :: rest => some (.number n, rest)
  | text => (column text).map fun (ref, rest) => (.column ref, rest)

def isTail (left : Operand V) : Parse V (Predicate V) :=
  andThen (clause (isWord "not") false (done true)) fun negated =>
    andThen (expect (isWord "null")) fun _ => done (.isNull left negated)

def inTail (left : Operand V) (negated : Bool) : Parse V (Predicate V) :=
  andThen (expect (isSymbol "(")) fun _ =>
    andThen (separated (isSymbol ",") operand) fun values =>
      andThen (expect (isSymbol ")")) fun _ => done (.inList left negated values)

/-- What follows the first operand of a predicate. -/
def predicateTail (left : Operand V) : Parse V (Predicate V)
  | .symbol symbol :: rest =>
    if symbol = "=" then (operand rest).map fun (right, rest) => (.compare left .eq right, rest)
    else if symbol = "!=" then (operand rest).map fun (right, rest) => (.compare left .ne right, rest)
    else none
  | .word word :: rest =>
    if word = "is" then isTail left rest
    else if word = "in" then inTail left false rest
    else if word = "not" then andThen (expect (isWord "in")) (fun _ => inTail left true) rest
    else none
  | _ => none

def predicate : Parse V (Predicate V) := andThen operand predicateTail

def predicates : Parse V (List (Predicate V)) := separated (isWord "and") predicate

def whereClause : Parse V (List (Predicate V)) := clause (isWord "where") [] predicates

def direction : Parse V Direction
  | .word word :: rest =>
    if word = "asc" then some (.asc, rest) else if word = "desc" then some (.desc, rest) else none
  | _ => none

def key : Parse V (ColumnRef × Direction) :=
  andThen column fun ref => andThen direction fun direction => done (ref, direction)

def orderClause : Parse V (List (ColumnRef × Direction)) :=
  clause (isWord "order") [] (andThen (expect (isWord "by")) fun _ => separated (isSymbol ",") key)

def number : Parse V (Option Nat)
  | .number n :: rest => some (some n, rest)
  | _ => none

def numberClause (keyword : String) : Parse V (Option Nat) := clause (isWord keyword) none number

def join : Parse V (Join V) :=
  andThen (expect (isWord "join")) fun _ =>
    andThen name fun table =>
      andThen (expect (isWord "on")) fun _ =>
        andThen predicates fun on => done ⟨table, on⟩

def star : Parse V (Option String)
  | .symbol symbol :: rest => if symbol = "*" then some (none, rest) else none
  | text =>
    andThen name (fun table => andThen (expect (isSymbol ".")) fun _ =>
      andThen (expect (isSymbol "*")) fun _ => done (some table)) text

variable (dialect : Dialect)

def offsetClause (limit : Option Nat) : Parse V (Option Nat) :=
  if limit.isSome || dialect.offsetAlone then numberClause "offset" else done none

def select : Parse V (Select V) :=
  andThen star fun star =>
    andThen (expect (isWord "from")) fun _ =>
      andThen name fun table =>
        andThen (many (isWord "inner") join) fun joins =>
          andThen whereClause fun filters =>
            andThen orderClause fun orders =>
              andThen (numberClause "limit") fun limit =>
                andThen (offsetClause dialect limit) fun offset =>
                  done ⟨star, table, joins, filters, orders, limit, offset⟩

def parenthesized {α : Type} (item : Parse V α) : Parse V (List α) :=
  andThen (expect (isSymbol "(")) fun _ =>
    andThen (separated (isSymbol ",") item) fun items =>
      andThen (expect (isSymbol ")")) fun _ => done items

def insert : Parse V (Statement V) :=
  andThen (expect (isWord "into")) fun _ =>
    andThen name fun table =>
      andThen (parenthesized name) fun columns =>
        andThen (expect (isWord "values")) fun _ =>
          andThen (parenthesized operand) fun values => done (.insert table columns values)

def assignment : Parse V (String × Operand V) :=
  andThen name fun column =>
    andThen (expect (isSymbol "=")) fun _ => andThen operand fun value => done (column, value)

def update : Parse V (Statement V) :=
  andThen name fun table =>
    andThen (expect (isWord "set")) fun _ =>
      andThen (separated (isSymbol ",") assignment) fun assignments =>
        andThen whereClause fun filters => done (.update table assignments filters)

def delete : Parse V (Statement V) :=
  andThen (expect (isWord "from")) fun _ =>
    andThen name fun table => andThen whereClause fun filters => done (.delete table filters)

def statement : Parse V (Statement V)
  | .word word :: rest =>
    if word = "select" then (select dialect rest).map fun (select, rest) => (.select select, rest)
    else if word = "insert" then insert rest
    else if word = "update" then update rest
    else if word = "delete" then delete rest
    else none
  | _ => none

/-- The statement that a list of tokens is, if it is one. -/
def parse (tokens : List (Tok V)) : Option (Statement V) :=
  match statement dialect tokens with
  | some (statement, []) => some statement
  | _ => none

end Parser

section WellFormed

/-- Lists that the grammar wants are not empty. -/
def Predicate.WellFormed : Predicate V → Prop
  | .inList _ _ values => values ≠ []
  | .compare _ _ _ | .isNull _ _ => True

def Select.WellFormed (select : Select V) : Prop :=
  (∀ join ∈ select.joins, join.on ≠ [] ∧ ∀ predicate ∈ join.on, predicate.WellFormed) ∧
    ∀ predicate ∈ select.filters, predicate.WellFormed

def Statement.WellFormed : Statement V → Prop
  | .select s => s.WellFormed
  | .insert _ columns values => columns ≠ [] ∧ values ≠ []
  | .update _ assignments filters =>
    assignments ≠ [] ∧ ∀ predicate ∈ filters, predicate.WellFormed
  | .delete _ filters => ∀ predicate ∈ filters, predicate.WellFormed

/-- The clause `offset` stands where the dialect has it. -/
def Select.Paged (dialect : Dialect) (select : Select V) : Prop :=
  select.offset.isSome → select.limit.isSome ∨ dialect.offsetAlone = true

def Statement.Paged (dialect : Dialect) : Statement V → Prop
  | .select s => s.Paged dialect
  | .insert _ _ _ | .update _ _ _ | .delete _ _ => True

end WellFormed

section RoundTrip

variable {continues : Tok V → Bool}

theorem name_reads (n : String) : Grammar.Reads name (fun _ => false) [(.name n : Tok V)] n :=
  fun _ _ => rfl

theorem column_reads (ref : ColumnRef) :
    Grammar.Reads column (isSymbol ".") (ref.tokens : List (Tok V)) ref := by
  obtain ⟨table, column⟩ := ref
  cases table with
  | some table => exact fun rest _ => rfl
  | none =>
    intro rest stops
    rw [ColumnRef.tokens, SqlText.column, List.singleton_append, andThen, name]
    simp only [Option.bind_some, expect_stops stops]

theorem operand_reads (o : Operand V) :
    Grammar.Reads operand (isSymbol ".") o.tokens o := by
  cases o with
  | value v => exact fun _ _ => rfl
  | number n => exact fun _ _ => rfl
  | column ref =>
    intro rest stops
    have shape : operand ((ref.tokens : List (Tok V)) ++ rest) =
        (column ((ref.tokens : List (Tok V)) ++ rest)).map fun (ref, rest) => (.column ref, rest) := by
      obtain ⟨table, column⟩ := ref
      cases table <;> rfl
    rw [Operand.tokens, shape, column_reads ref rest stops]
    rfl

theorem isTail_reads (left : Operand V) (negated : Bool) :
    Grammar.Reads (isTail left) (isSymbol ".")
      (if negated then [.word "not", .word "null"] else [.word "null"]) (.isNull left negated) := by
  cases negated <;> exact fun _ _ => rfl

/-- Operands in parentheses. -/
theorem parenthesized_reads {α : Type} {item : Parse V α} {spell : α → List (Tok V)}
    {items : List α} (nonempty : items ≠ [])
    (each : ∀ value ∈ items, Grammar.Reads item (isSymbol ".") (spell value) value) :
    Grammar.Reads (parenthesized item) continues
      (.symbol "(" :: (joined (.symbol ",") (items.map spell) ++ [.symbol ")"])) items := by
  refine Grammar.Reads.keyword rfl ?_
  refine (separated_reads rfl rfl nonempty each).andThen (fun rest _ => ?_) ?_
  · exact stops_cons.mpr rfl
  · exact Grammar.Reads.keyword rfl (.done items)

theorem inTail_reads (left : Operand V) (negated : Bool) {values : List (Operand V)}
    (nonempty : values ≠ []) :
    Grammar.Reads (inTail left negated) (isSymbol ".")
      (.symbol "(" :: (joined (.symbol ",") (values.map Operand.tokens) ++ [.symbol ")"]))
      (.inList left negated values) := by
  refine Grammar.Reads.keyword rfl ?_
  refine (separated_reads rfl rfl nonempty fun value _ => operand_reads value).andThen
    (fun rest _ => ?_) ?_
  · exact stops_cons.mpr rfl
  · exact Grammar.Reads.keyword rfl (.done _)

theorem predicate_reads {p : Predicate V} (wellFormed : p.WellFormed) :
    Grammar.Reads predicate (isSymbol ".") p.tokens p := by
  have tail (left : Operand V) {head : Tok V} {more : List (Tok V)} {result : Predicate V}
      (apart : isSymbol "." head = false)
      (later : Grammar.Reads (predicateTail left) (isSymbol ".") (head :: more) result) :
      Grammar.Reads predicate (isSymbol ".") (left.tokens ++ head :: more) result :=
    (operand_reads left).andThen (fun rest _ => stops_cons.mpr apart) later
  cases p with
  | compare left op right =>
    cases op <;> refine tail left rfl fun rest stops => ?_ <;>
      exact congrArg (Option.map _) (operand_reads right rest stops)
  | isNull left negated =>
    have reads := isTail_reads left negated
    cases negated <;> exact tail left rfl fun rest stops => reads rest stops
  | inList left negated values =>
    have reads := inTail_reads left negated wellFormed
    cases negated with
    | false =>
      rw [Predicate.tokens, List.append_assoc, List.append_assoc]
      exact tail left rfl fun rest stops => reads rest stops
    | true =>
      rw [Predicate.tokens, List.append_assoc, List.append_assoc]
      exact tail left rfl fun rest stops => reads rest stops

/-- The tokens that go on with a conjunction. -/
def moreConjunction (token : Tok V) : Bool := isWord "and" token || isSymbol "." token

theorem predicates_reads {ps : List (Predicate V)} (nonempty : ps ≠ [])
    (wellFormed : ∀ p ∈ ps, p.WellFormed) :
    Grammar.Reads predicates moreConjunction (conjunction ps) ps :=
  separated_reads rfl rfl nonempty fun p member => predicate_reads (wellFormed p member)

/-- The tokens that go on with the clauses up to the filters. -/
def moreWhere (token : Tok V) : Bool := isWord "where" token || moreConjunction token

theorem whereClause_reads {ps : List (Predicate V)} (wellFormed : ∀ p ∈ ps, p.WellFormed) :
    Grammar.Reads whereClause moreWhere (whereTokens ps) ps := by
  cases ps with
  | nil => exact .absent
  | cons first rest =>
    exact .present rfl (predicates_reads (List.cons_ne_nil _ _) wellFormed)

theorem key_reads (k : ColumnRef × Direction) :
    Grammar.Reads key (fun _ => false) (keyTokens k : List (Tok V)) k := by
  obtain ⟨ref, way⟩ := k
  refine (column_reads ref).andThen (fun rest _ => stops_cons.mpr rfl) ?_
  cases way <;> exact fun _ _ => rfl

def moreOrder (token : Tok V) : Bool := isWord "order" token || isSymbol "," token

theorem orderClause_reads (keys : List (ColumnRef × Direction)) :
    Grammar.Reads orderClause moreOrder (orderTokens keys : List (Tok V)) keys := by
  cases keys with
  | nil => exact .absent
  | cons first rest =>
    refine .present rfl (Grammar.Reads.keyword rfl ?_)
    refine (separated_reads rfl rfl (List.cons_ne_nil first rest) fun k _ => key_reads k).mono
      fun token more => ?_
    simpa using more

theorem numberClause_reads (keyword : String) (n : Option Nat) :
    Grammar.Reads (numberClause keyword) (isWord keyword) (numberTokens keyword n : List (Tok V)) n := by
  have apart (token : Tok V) (more : (isWord keyword token || false) = true) :
      isWord keyword token = true := by simpa using more
  cases n with
  | none => exact Grammar.Reads.mono .absent apart
  | some n =>
    refine Grammar.Reads.mono (.present ?_ fun _ _ => rfl) apart
    simp [isWord]

theorem join_reads {j : Join V} (nonempty : j.on ≠ []) (wellFormed : ∀ p ∈ j.on, p.WellFormed) :
    Grammar.Reads join moreConjunction j.tokens j := by
  refine Grammar.Reads.keyword rfl ?_
  refine (name_reads j.table).andThen (fun rest _ => stops_cons.mpr rfl) ?_
  refine Grammar.Reads.keyword rfl ?_
  rw [← List.append_nil (conjunction j.on)]
  exact (predicates_reads nonempty wellFormed).andThen (fun _ stops => stops) (.done _)

theorem star_reads (owner : Option String) :
    Grammar.Reads star (fun _ => false) (starTokens owner : List (Tok V)) owner := by
  cases owner <;> exact fun _ _ => rfl

theorem stops_numberTokens {keyword : String} {n : Option Nat} {rest : List (Tok V)}
    (apart : continues (.word keyword) = false) (stops : Stops continues rest) :
    Stops continues (numberTokens keyword n ++ rest) := by
  cases n with
  | none => exact stops
  | some n => exact stops_cons.mpr apart

theorem stops_orderTokens {keys : List (ColumnRef × Direction)} {rest : List (Tok V)}
    (apart : continues (.word "order") = false) (stops : Stops continues rest) :
    Stops continues (orderTokens keys ++ rest) := by
  cases keys with
  | nil => exact stops
  | cons first others => exact stops_cons.mpr apart

theorem stops_whereTokens {ps : List (Predicate V)} {rest : List (Tok V)}
    (apart : continues (.word "where") = false) (stops : Stops continues rest) :
    Stops continues (whereTokens ps ++ rest) := by
  cases ps with
  | nil => exact stops
  | cons first others => exact stops_cons.mpr apart

/-- The tokens that go on with the clauses of a query up to its limit. -/
def moreSelect (token : Tok V) : Bool :=
  isWord "inner" token || moreWhere token || moreOrder token || isWord "limit" token

theorem stops_moreSelect {rest : List (Tok V)} (stops : Stops moreSelect rest) :
    Stops (fun token => isWord "inner" token || moreConjunction token) rest ∧
      Stops moreWhere rest ∧ Stops moreOrder rest ∧ Stops (isWord "limit") rest := by
  cases rest with
  | nil => simp
  | cons token rest =>
    simp only [stops_cons, moreSelect, moreWhere, Bool.or_eq_false_iff] at stops ⊢
    exact ⟨⟨stops.1.1.1, stops.1.1.2.2⟩, stops.1.1.2, stops.1.2, stops.2⟩

/-- A query is read, if its last clause is. -/
theorem select_reads {dialect : Dialect} {s : Select V} (wellFormed : s.WellFormed)
    (offset : Grammar.Reads (offsetClause dialect s.limit) continues
      (numberTokens "offset" s.offset) s.offset) :
    Grammar.Reads (select dialect) (fun token => moreSelect token || continues token)
      (starTokens s.star ++ .word "from" :: .name s.table ::
        ((s.joins.flatMap fun join => .word "inner" :: join.tokens) ++
          (whereTokens s.filters ++ (orderTokens s.orders ++
            (numberTokens "limit" s.limit ++ numberTokens "offset" s.offset))))) s := by
  refine (star_reads s.star).andThen (fun _ _ => stops_cons.mpr rfl)
    (Grammar.Reads.keyword rfl ?_)
  refine (name_reads s.table).andThen (fun _ _ _ _ => rfl) ?_
  refine (many_reads rfl rfl fun join member =>
    join_reads (wellFormed.1 join member).1 (wellFormed.1 join member).2).andThen
    (fun rest stops => ?_) ?_
  · have after := stops_moreSelect (stops_or.mp stops).1
    simp only [List.append_assoc]
    exact stops_whereTokens rfl (stops_orderTokens rfl (stops_numberTokens rfl
      (stops_numberTokens rfl after.1)))
  refine (whereClause_reads wellFormed.2).andThen (fun rest stops => ?_) ?_
  · have after := stops_moreSelect (stops_or.mp stops).1
    simp only [List.append_assoc]
    exact stops_orderTokens rfl (stops_numberTokens rfl (stops_numberTokens rfl after.2.1))
  refine (orderClause_reads s.orders).andThen (fun rest stops => ?_) ?_
  · have after := stops_moreSelect (stops_or.mp stops).1
    simp only [List.append_assoc]
    exact stops_numberTokens rfl (stops_numberTokens rfl after.2.2.1)
  refine (numberClause_reads "limit" s.limit).andThen (fun rest stops => ?_) ?_
  · have after := stops_moreSelect (stops_or.mp stops).1
    exact stops_numberTokens rfl after.2.2.2
  rw [← List.append_nil (numberTokens "offset" s.offset)]
  exact offset.andThen (fun _ stops => (stops_or.mp stops).2) (.done s)

theorem select_paged {dialect : Dialect} {s : Select V} (wellFormed : s.WellFormed)
    (paged : s.Paged dialect) : parse dialect s.tokens = some (.select s) := by
  have offset : Grammar.Reads (offsetClause dialect s.limit) (isWord "offset")
      (numberTokens "offset" s.offset : List (Tok V)) s.offset := by
    unfold offsetClause
    split
    · exact numberClause_reads "offset" s.offset
    · next alone =>
      have absent : s.offset = none := by
        cases present : s.offset with
        | none => rfl
        | some n =>
          rcases paged (by rw [present]; rfl) with limit | free
          · simp [limit] at alone
          · simp [free] at alone
      rw [absent]
      exact .done none
  have read := select_reads wellFormed offset [] stops_nil
  rw [List.append_nil] at read
  rw [parse, Select.tokens, statement, if_pos rfl, read]
  rfl

/-- Without a limit the dialect has no clause `offset`: the rest of the text is left over. -/
theorem select_unpaged {dialect : Dialect} {s : Select V} (wellFormed : s.WellFormed)
    (unpaged : ¬s.Paged dialect) : parse dialect s.tokens = none := by
  unfold Select.Paged at unpaged
  simp only [Classical.not_imp, not_or, Bool.not_eq_true, Option.isSome_eq_false_iff,
    Option.isNone_iff_eq_none] at unpaged
  obtain ⟨present, limit, alone⟩ := unpaged
  obtain ⟨n, offset⟩ := Option.isSome_iff_exists.mp present
  have nothing : Grammar.Reads (offsetClause dialect s.limit) (fun _ => false)
      (numberTokens "offset" none : List (Tok V)) none := by
    rw [offsetClause, limit, alone]
    exact .done none
  have cut : ({ s with offset := none } : Select V).WellFormed := wellFormed
  have read := select_reads cut nothing (numberTokens "offset" s.offset)
    (stops_or.mpr (by rw [offset]; exact ⟨stops_cons.mpr rfl, stops_cons.mpr rfl⟩))
  simp only [numberTokens, List.append_nil, List.append_assoc, List.cons_append] at read
  rw [parse, Select.tokens, statement, if_pos rfl, offset]
  simp only [numberTokens, offset] at read ⊢
  rw [read]
  rfl

theorem insert_reads (table : String) {columns : List String} {values : List (Operand V)}
    (someColumn : columns ≠ []) (someValue : values ≠ []) :
    Grammar.Reads insert (fun _ => true)
      (.word "into" :: .name table :: .symbol "(" ::
        (joined (.symbol ",") (columns.map fun column => [.name column]) ++
          .symbol ")" :: .word "values" :: .symbol "(" ::
          (joined (.symbol ",") (values.map Operand.tokens) ++ [.symbol ")"])))
      (.insert table columns values) := by
  refine Grammar.Reads.keyword rfl ?_
  refine (name_reads table).andThen (fun _ _ _ _ => rfl) ?_
  have names : Grammar.Reads (parenthesized name) (fun _ => false)
      ((.symbol "(" :: (joined (.symbol ",") (columns.map fun column => [.name column]) ++
        [.symbol ")"])) : List (Tok V)) columns :=
    parenthesized_reads someColumn fun column _ => (name_reads column).mono nofun
  have operands : Grammar.Reads (parenthesized operand) (fun _ => false)
      (.symbol "(" :: (joined (.symbol ",") (values.map Operand.tokens) ++ [.symbol ")"]))
      values := parenthesized_reads someValue fun value _ => operand_reads value
  have tail : Grammar.Reads (andThen (expect (isWord "values")) fun _ =>
      andThen (parenthesized operand) fun values => done (Statement.insert table columns values))
      (fun _ => true) (.word "values" :: .symbol "(" ::
        (joined (.symbol ",") (values.map Operand.tokens) ++ [.symbol ")"]))
      (.insert table columns values) := by
    refine Grammar.Reads.keyword rfl ?_
    rw [← List.append_nil (joined _ _ ++ _), ← List.cons_append]
    exact operands.andThen (fun _ _ _ _ => rfl) (.done _)
  have split (a b : List (Tok V)) : .symbol "(" :: (a ++ .symbol ")" :: b) =
      (.symbol "(" :: (a ++ [.symbol ")"])) ++ b := by simp
  rw [split]
  exact names.andThen (fun _ _ _ _ => rfl) tail

theorem assignment_reads (a : String × Operand V) :
    Grammar.Reads assignment (isSymbol ".") (assignmentTokens a) a := by
  obtain ⟨column, value⟩ := a
  refine (name_reads column).andThen (fun _ _ _ _ => rfl) (Grammar.Reads.keyword rfl ?_)
  rw [← List.append_nil value.tokens]
  exact (operand_reads value).andThen (fun _ stops => stops) (.done _)

theorem where_ends {result : List (Predicate V) → Statement V} {filters : List (Predicate V)}
    (wellFormed : ∀ p ∈ filters, p.WellFormed) :
    Grammar.Reads (andThen whereClause fun filters => done (result filters)) (fun _ => true)
      (whereTokens filters) (result filters) := by
  rw [← List.append_nil (whereTokens filters)]
  refine (whereClause_reads wellFormed).andThen (fun rest stops token member => ?_) (.done _)
  exact nomatch stops token member

theorem update_reads (table : String) {assignments : List (String × Operand V)}
    {filters : List (Predicate V)} (nonempty : assignments ≠ [])
    (wellFormed : ∀ p ∈ filters, p.WellFormed) :
    Grammar.Reads update (fun _ => true)
      (.name table :: .word "set" ::
        (joined (.symbol ",") (assignments.map assignmentTokens) ++ whereTokens filters))
      (.update table assignments filters) := by
  refine (name_reads table).andThen (fun _ _ _ _ => rfl) (Grammar.Reads.keyword rfl ?_)
  refine (separated_reads rfl rfl nonempty fun a _ => assignment_reads a).andThen
    (fun rest stops => ?_) (where_ends wellFormed)
  cases filters with
  | nil => exact fun _ member => nomatch stops _ member
  | cons => exact stops_cons.mpr rfl

theorem delete_reads (table : String) {filters : List (Predicate V)}
    (wellFormed : ∀ p ∈ filters, p.WellFormed) :
    Grammar.Reads delete (fun _ => true) (.word "from" :: .name table :: whereTokens filters)
      (.delete table filters) :=
  Grammar.Reads.keyword rfl
    ((name_reads table).andThen (fun _ _ _ _ => rfl) (where_ends wellFormed))

/-- The tokens of a statement are this statement, if its `offset` stands where it may. -/
theorem parse_tokens {dialect : Dialect} {s : Statement V} (wellFormed : s.WellFormed)
    (paged : s.Paged dialect) : parse dialect s.tokens = some s := by
  cases s with
  | select s => exact select_paged wellFormed paged
  | insert table columns values =>
    have read := insert_reads table wellFormed.1 wellFormed.2 [] stops_nil
    rw [List.append_nil] at read
    rw [parse, Statement.tokens, statement]
    simp only [String.reduceEq, if_false, if_true, read]
  | update table assignments filters =>
    have read := update_reads table wellFormed.1 wellFormed.2 [] stops_nil
    rw [List.append_nil] at read
    rw [parse, Statement.tokens, statement]
    simp only [String.reduceEq, if_false, if_true, read]
  | delete table filters =>
    have read := delete_reads table wellFormed [] stops_nil
    rw [List.append_nil] at read
    rw [parse, Statement.tokens, statement]
    simp only [String.reduceEq, if_false, if_true, read]

/-- Otherwise they are no statement. -/
theorem parse_unpaged {dialect : Dialect} {s : Statement V} (wellFormed : s.WellFormed)
    (unpaged : ¬s.Paged dialect) : parse dialect s.tokens = none := by
  cases s with
  | select s => exact select_unpaged wellFormed unpaged
  | insert | update | delete => exact absurd trivial unpaged

end RoundTrip

end SqlText
