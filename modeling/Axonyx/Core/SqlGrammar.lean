import Axonyx.Core.SqlSafety
import Axonyx.SqlText.Syntax

/-! The statement that a plan describes, and the statement that its compiled text is: they are
the same, except for a page that has an `offset` but no `limit`. -/
namespace Axonyx.Core.Sql

open Outcome (bind_ok)
open SqlText (Tok ColumnRef Operand Comparison Predicate Direction Select Reads Follows Opens Breaks)

section Plans

def AxSqlDialect.grammar (dialect : AxSqlDialect) : SqlText.Dialect where
  toStyle := dialect.style
  offsetAlone := dialect = .postgres

def fieldColumn (field source : String) (qualifySource : Bool) : ColumnRef :=
  match Text.splitOnce field "." with
  | some (qualifier, column) => ⟨some qualifier, column⟩
  | none => if qualifySource then ⟨some source, field⟩ else ⟨none, field⟩

/-- A condition that no row meets, or every row. -/
def constant (holds : Bool) : Predicate AxRustExpr :=
  .compare (.number 1) .eq (.number (if holds then 1 else 0))

def filterPredicate (context : AxSqlFilterContext) (filter : AxQueryFilterPlan)
    (column : ColumnRef) : Predicate AxRustExpr :=
  match filter.op with
  | .eq => .compare (.column column) .eq (.value filter.value)
  | .ne => .compare (.column column) .ne (.value filter.value)
  | .in =>
    match filterListValues filter.value with
    | none | some [] => constant false
    | some values => .inList (.column column) false (values.map .value)
  | .notIn =>
    match filterListValues filter.value with
    | none | some [] => constant (context = .query)
    | some values => .inList (.column column) true (values.map .value)
  | .isNull => .isNull (.column column) false
  | .isNotNull => .isNull (.column column) true

def joinPlan (collection : String) (join : AxQueryJoinPlan) : SqlText.Join AxRustExpr where
  table := join.collection
  on := join.columns.map fun column =>
    .compare (.column ⟨some collection, column.source⟩) .eq
      (.column ⟨some join.collection, column.target⟩)

def orderKey (field : String → ColumnRef) (order : AxQueryOrderPlan) : ColumnRef × Direction :=
  (field order.field, match order.direction with | .asc => .asc | .desc => .desc)

def querySelect (collection : String) (query : AxQueryPlan) : Select AxRustExpr :=
  let field := fun name => fieldColumn name collection (!query.joins.isEmpty)
  { star := if query.joins.isEmpty then none else some collection
    table := collection
    joins := query.joins.map (joinPlan collection)
    filters := query.filters.map fun filter => filterPredicate .query filter (field filter.field)
    orders := query.orders.map (orderKey field)
    limit := query.limit
    offset := query.offset }

def mutationPredicates (filters : List AxQueryFilterPlan) : List (Predicate AxRustExpr) :=
  filters.map fun filter => filterPredicate .mutation filter ⟨none, filter.field⟩

/-- The statement that a plan describes. -/
def Statement.planned : Statement → SqlText.Statement AxRustExpr
  | .query plan => .select (querySelect (sourceName plan.source) plan)
  | .insert collection fields =>
    .insert collection (fields.map AxAssignmentPlan.name) (fields.map fun field => .value field.value)
  | .update collection fields filters =>
    .update collection (fields.map fun field => (field.name, .value field.value))
      (mutationPredicates filters)
  | .delete collection filters => .delete collection (mutationPredicates filters)

/-- What the database reads: the tokens of the text, the parameters at their places, and the
statement of the dialect's grammar. -/
def readStatement (dialect : AxSqlDialect) (compiled : AxSqlStatement) :
    Option (SqlText.Statement AxRustExpr) := do
  let raw ← SqlText.lex dialect.style compiled.sql
  let tokens ← SqlText.bindMarks (compiled.params.map AxSqlParam.value) 1 raw
  SqlText.parse dialect.grammar tokens

/-- An `offset` has a `limit` before it, or the dialect does not mind. -/
def Statement.OffsetLegal (dialect : AxSqlDialect) : Statement → Prop
  | .query plan => plan.offset.isSome → plan.limit.isSome ∨ dialect = .postgres
  | .insert _ _ | .update _ _ _ | .delete _ _ => True

end Plans

section Texts

open SqlText (run numberMarks marks)

abbrev Toks := List (Tok AxRustExpr)

def AxSqlDialect.all : List AxSqlDialect := [.postgres, .mySql, .sqlite]

/-- In every dialect the text has these tokens, and a token can start behind it. -/
def opensAs (text : String) (tokens : Toks) : Bool :=
  (marks tokens).isEmpty && AxSqlDialect.all.all fun dialect =>
    run dialect.style .plain text.toList = some (numberMarks dialect.style 0 tokens, .plain)

/-- In every dialect the text has these tokens, if it ends there. -/
def endsAs (text : String) (tokens : Toks) : Bool :=
  (marks tokens).isEmpty && AxSqlDialect.all.all fun dialect =>
    SqlText.lex dialect.style text = some (numberMarks dialect.style 0 tokens)

def breaking (text : String) : Bool := text.toList.head?.any (· ∈ SqlText.breaks)

/-- The texts at the beginning of a statement and behind names, with their tokens. -/
def beginnings : List (String × Toks) :=
  [(".", [.symbol "."]), ("select * from ", [.word "select", .symbol "*", .word "from"]), ("select ", [.word "select"]),
    (".* from ", [.symbol ".", .symbol "*", .word "from"]), ("insert into ", [.word "insert", .word "into"]),
    ("update ", [.word "update"]), ("delete from ", [.word "delete", .word "from"])]

/-- The texts between the parts of a statement. -/
def betweens : List (String × Toks) :=
  [(", ", [.symbol ","]), (" (", [.symbol "("]), (" = ", [.symbol "="]), (" != ", [.symbol "!="]),
    (" and ", [.word "and"]), (" where ", [.word "where"]), (" order by ", [.word "order", .word "by"]),
    (" on ", [.word "on"]), (" inner join ", [.word "inner", .word "join"]),
    (") values (", [.symbol ")", .word "values", .symbol "("]), (" set ", [.word "set"]),
    (" in (", [.word "in", .symbol "("]), (" not in (", [.word "not", .word "in", .symbol "("]),
    (" limit ", [.word "limit"]), (" offset ", [.word "offset"])]

/-- The texts that nothing follows. -/
def endings : List (String × Toks) :=
  [(")", [.symbol ")"]), (" is null", [.word "is", .word "null"]), (" is not null", [.word "is", .word "not", .word "null"]),
    (" asc", [.word "asc"]), (" desc", [.word "desc"])]

/-- The fixed texts have their tokens in every dialect. -/
theorem texts_read : (∀ entry ∈ beginnings, opensAs entry.1 entry.2 = true) ∧
    (∀ entry ∈ betweens, (breaking entry.1 && opensAs entry.1 entry.2) = true) ∧
    (∀ entry ∈ endings, (breaking entry.1 && endsAs entry.1 entry.2) = true) ∧
    ∀ holds : Bool, endsAs (if holds then "1 = 1" else "1 = 0") (constant holds).tokens = true := by
  decide +kernel

variable {dialect : AxSqlDialect} {others : Toks} {template : Layout}

theorem begins {text : String} {tokens : Toks} (known : (text, tokens) ∈ beginnings) : opensAs text tokens = true :=
  texts_read.1 _ known

theorem between {text : String} {tokens : Toks} (known : (text, tokens) ∈ betweens) :
    (breaking text && opensAs text tokens) = true := by
  have checked := texts_read.2.1 (text, tokens) known
  exact checked

theorem between_opens {text : String} {tokens : Toks} (known : (text, tokens) ∈ betweens) : opensAs text tokens = true :=
  (Bool.and_eq_true_iff.mp (between known)).2

theorem ends {text : String} {tokens : Toks} (known : (text, tokens) ∈ endings) :
    (breaking text && endsAs text tokens) = true := by
  have checked := texts_read.2.2.1 (text, tokens) known
  exact checked

theorem mem_all (dialect : AxSqlDialect) : dialect ∈ AxSqlDialect.all := by
  cases dialect <;> decide

theorem opens_of {text : String} {tokens : Toks} (check : opensAs text tokens = true) : Opens dialect.style text tokens := by
  rw [opensAs, Bool.and_eq_true, List.all_eq_true] at check
  exact ⟨List.isEmpty_iff.mp check.1, of_decide_eq_true (check.2 dialect (mem_all dialect))⟩

theorem breaks_of {text : String} (check : breaking text = true) : Breaks false text := by
  unfold breaking at check
  cases shape : text.toList with
  | nil => rw [shape] at check; cases check
  | cons c rest =>
    rw [shape] at check
    exact ⟨c, rest, shape, .inl (of_decide_eq_true check)⟩

theorem breaks_comma : Breaks false ", " := ⟨',', _, rfl, .inl (by decide)⟩

theorem breaks_and : Breaks false " and " := ⟨' ', _, rfl, .inl (by decide)⟩

theorem settled_of_flush {mode : SqlText.Mode} {pending : List SqlText.Raw}
    (flush : mode.flush = some pending) : ∃ dot, SqlText.Settled mode pending dot := by
  cases mode with
  | mark seen =>
    cases seen with
    | nil => cases flush
    | cons => cases flush; exact ⟨_, .mark _ _⟩
  | plain => cases flush; exact ⟨_, .plain⟩
  | word => cases flush; exact ⟨_, .word _⟩
  | number => cases flush; exact ⟨_, .number _⟩
  | closed => cases flush; exact ⟨_, .closed _⟩
  | quoted | bang => cases flush

theorem reads_text (text : String) (tokens : Toks) (check : opensAs text tokens = true)
    (rest : Reads dialect.style template others) :
    Reads dialect.style (.text text :: template) (tokens ++ others) :=
  .text (opens_of check) rest

theorem reads_end (text : String) (tokens : Toks) (check : endsAs text tokens = true) :
    Reads dialect.style ([.text text] : Layout) tokens := by
  rw [endsAs, Bool.and_eq_true, List.all_eq_true] at check
  have lexed := of_decide_eq_true (check.2 dialect (mem_all dialect))
  obtain ⟨⟨found, last⟩, ran, lexed⟩ := Option.bind_eq_some_iff.mp lexed
  obtain ⟨pending, flush, lexed⟩ := Option.bind_eq_some_iff.mp lexed
  obtain ⟨dot, settled⟩ := settled_of_flush flush
  exact .ending (List.isEmpty_iff.mp check.1) ran settled (Option.some.inj lexed)

theorem follows_text (text : String) (tokens : Toks) (check : (breaking text && opensAs text tokens) = true)
    (rest : Reads dialect.style template others) :
    Follows dialect.style false (.text text :: template) (tokens ++ others) := by
  rw [Bool.and_eq_true] at check
  exact (reads_text text tokens check.2 rest).follows (style_quote dialect) (breaks_of check.1)

theorem follows_end (text : String) (tokens : Toks) (check : (breaking text && endsAs text tokens) = true) :
    Follows dialect.style false ([.text text] : Layout) tokens := by
  rw [Bool.and_eq_true] at check
  exact (reads_end text tokens check.2).follows (style_quote dialect) (breaks_of check.1)

end Texts

section Layouts

variable {dialect : AxSqlDialect}

def Unquoted (dialect : AxSqlDialect) (name : String) : Prop :=
  ∀ c ∈ name.toList, c ≠ dialect.style.quote

/-- A name behind a dot. -/
theorem dot_name {name : String} {template : Layout} {tokens : Toks}
    (plain : Unquoted dialect name) (rest : Follows dialect.style true template tokens) :
    Follows dialect.style true (.text "." :: .name name :: template)
      (.symbol "." :: .name name :: tokens) := by
  have opens : Opens dialect.style "." [(.symbol "." : Tok AxRustExpr)] :=
    opens_of (begins (by simp [beginnings]))
  exact (Reads.text opens (.name plain rest)).follows (style_quote dialect)
    ⟨'.', [], rfl, .inr ⟨rfl, rfl⟩⟩

theorem column_layout {field source : String} {qualifySource : Bool}
    (plain : ∀ name ∈ Template.names (fieldLayout field source qualifySource), Unquoted dialect name) :
    Reads dialect.style (fieldLayout field source qualifySource)
      (fieldColumn field source qualifySource).tokens := by
  unfold fieldLayout at plain ⊢
  unfold fieldColumn
  cases split : Text.splitOnce field "." with
  | some parts =>
    rw [split] at plain
    exact .name (plain _ (by simp [Template.names])) (dot_name (plain _ (by simp [Template.names])) .nil)
  | none =>
    rw [split] at plain
    cases qualifySource with
    | false => exact .name (plain _ (by simp [Template.names])) .nil
    | true =>
      exact .name (plain _ (by simp [Template.names])) (dot_name (plain _ (by simp [Template.names])) .nil)

theorem values_layout (values : List AxRustExpr) :
    Reads dialect.style (Template.joinPieces ", " (values.map fun value => [.hole value]))
      (Grammar.joined (.symbol ",") (values.map fun value => (Operand.value value).tokens)) := by
  have comma : Opens dialect.style ", " [(.symbol "," : Tok AxRustExpr)] :=
    opens_of (between_opens (by simp [betweens]))
  exact .joined (style_quote dialect) comma breaks_comma
    fun value _ => .hole (style_quote dialect) .nil

theorem list_layout {field : Layout} {column : ColumnRef} {keyword : String} {negated : Bool}
    (reads : Reads dialect.style field column.tokens) (values : List AxRustExpr)
    (check : (breaking (" " ++ keyword ++ " (") && opensAs (" " ++ keyword ++ " (")
      ((if negated then [.word "not", .word "in"] else [.word "in"]) ++ [.symbol "("])) = true) :
    Reads dialect.style (listLayout field keyword values)
      (Predicate.inList (.column column) negated (values.map .value)).tokens := by
  have close : Follows dialect.style false ([.text ")"] : Layout) [.symbol ")"] :=
    follows_end ")" [.symbol ")"] (ends (by simp [endings]))
  have all := reads.append (follows_text _ _ check ((values_layout values).append close))
  simp only [listLayout, Predicate.tokens, Operand.tokens, List.map_map, List.append_assoc,
    List.cons_append, List.nil_append, Function.comp_def] at all ⊢
  exact all

theorem filter_layout (context : AxSqlFilterContext) (filter : AxQueryFilterPlan) {field : Layout}
    {column : ColumnRef} (reads : Reads dialect.style field column.tokens) :
    Reads dialect.style (filterLayout context filter field)
      (filterPredicate context filter column).tokens := by
  have compared (text : String) (symbol : String)
      (check : (breaking text && opensAs text [.symbol symbol]) = true) (value : AxRustExpr) :
      Reads dialect.style (field ++ [.text text, .hole value])
        (column.tokens ++ [.symbol symbol, .mark value]) :=
    reads.append (follows_text text [.symbol symbol] check (.hole (style_quote dialect) .nil))
  have tested (text : String) (tokens : Toks) (check : (breaking text && endsAs text tokens) = true) :
      Reads dialect.style (field ++ [.text text]) (column.tokens ++ tokens) :=
    reads.append (follows_end text tokens check)
  have fixed (holds : Bool) : Reads dialect.style ([.text (if holds then "1 = 1" else "1 = 0")] : Layout)
      (constant holds).tokens := by
    exact reads_end _ _ (texts_read.2.2.2 holds)
  unfold filterLayout filterPredicate
  cases filter.op with
  | eq => exact compared " = " "=" (between (by simp [betweens])) filter.value
  | ne => exact compared " != " "!=" (between (by simp [betweens])) filter.value
  | isNull => exact tested " is null" [.word "is", .word "null"] (ends (by simp [endings]))
  | isNotNull =>
    exact tested " is not null" [.word "is", .word "not", .word "null"] (ends (by simp [endings]))
  | «in» =>
    rcases filterListValues filter.value with _ | (_ | ⟨value, rest⟩)
    · exact fixed false
    · exact fixed false
    · exact list_layout reads (value :: rest) (between (by simp [betweens]))
  | notIn =>
    have negative := fixed (context = .query)
    simp only [decide_eq_true_eq] at negative
    rcases filterListValues filter.value with _ | (_ | ⟨value, rest⟩)
    · exact negative
    · exact negative
    · exact list_layout reads (value :: rest) (between (by simp [betweens]))

theorem conjunction_layout {α : Type} {values : List α} {layout : α → Layout}
    {predicate : α → Predicate AxRustExpr}
    (each : ∀ value ∈ values, Reads dialect.style (layout value) (predicate value).tokens) :
    Reads dialect.style (Template.joinPieces " and " (values.map layout))
      (SqlText.conjunction (values.map predicate)) := by
  have word : Opens dialect.style " and " [(.word "and" : Tok AxRustExpr)] :=
    opens_of (between_opens (by simp [betweens]))
  rw [SqlText.conjunction, List.map_map]
  exact .joined (style_quote dialect) word breaks_and each

theorem where_layout {α : Type} {values : List α} {layout : α → Layout}
    {predicate : α → Predicate AxRustExpr}
    (each : ∀ value ∈ values, Reads dialect.style (layout value) (predicate value).tokens) :
    Follows dialect.style false (whereLayout (values.map layout))
      (SqlText.whereTokens (values.map predicate)) := by
  cases values with
  | nil => exact .nil
  | cons first rest =>
    exact follows_text " where " [.word "where"] (between (by simp [betweens]))
      (conjunction_layout each)

theorem number_layout {text keyword : String} (n : Option Nat)
    (check : opensAs text [.word keyword] = true)
    (starts : ∀ n : Nat, breaking (text ++ toString n) = true) :
    Follows dialect.style false (numberLayout text n) (SqlText.numberTokens keyword n) := by
  cases n with
  | none => exact .nil
  | some n =>
    exact (Reads.number (style_quote dialect) (opens_of check)).follows (style_quote dialect)
      (breaks_of (starts n))

theorem order_layout {field : String → Layout} {column : String → ColumnRef}
    {orders : List AxQueryOrderPlan}
    (each : ∀ order ∈ orders, Reads dialect.style (field order.field) (column order.field).tokens) :
    Follows dialect.style false (orderByLayout (orders.map (orderLayout field)))
      (SqlText.orderTokens (orders.map (orderKey column))) := by
  have keys : ∀ order ∈ orders, Reads dialect.style (orderLayout field order)
      (SqlText.keyTokens (orderKey column order)) := by
    intro order member
    refine (each order member).append ?_
    cases same : order.direction
    · simpa [orderDirectionName, orderKey, same, Direction.word] using
        follows_end " asc" [.word "asc"] (ends (by simp [endings]))
    · simpa [orderDirectionName, orderKey, same, Direction.word] using
        follows_end " desc" [.word "desc"] (ends (by simp [endings]))
  have comma : Opens dialect.style ", " [(.symbol "," : Tok AxRustExpr)] :=
    opens_of (between_opens (by simp [betweens]))
  cases orders with
  | nil => exact .nil
  | cons first rest =>
    have items := Reads.joined (style_quote dialect) comma breaks_comma keys
    have all := follows_text " order by " [.word "order", .word "by"]
      (between (by simp [betweens])) items
    simpa [orderByLayout, SqlText.orderTokens, Function.comp_def] using all

theorem unquoted {name : String} (valid : validateIdent name = .ok ()) : Unquoted dialect name :=
  valid_unquoted dialect valid

theorem select_layout {collection : String} (joins : List AxQueryJoinPlan)
    (plain : Unquoted dialect collection) :
    Reads dialect.style (selectLayout collection joins)
      (.word "select" :: (SqlText.starTokens (if joins.isEmpty then none else some collection) ++
        [.word "from", .name collection])) := by
  cases joins with
  | nil =>
    exact reads_text "select * from " [.word "select", .symbol "*", .word "from"]
      (begins (by simp [beginnings])) (.name plain .nil)
  | cons first rest =>
    have star : Opens dialect.style ".* from "
        [(.symbol "." : Tok AxRustExpr), .symbol "*", .word "from"] := opens_of (begins (by simp [beginnings]))
    refine reads_text "select " [.word "select"] (begins (by simp [beginnings])) (.name plain ?_)
    exact (Reads.text star (.name plain .nil)).follows (style_quote dialect)
      ⟨'.', _, rfl, .inr ⟨rfl, rfl⟩⟩

theorem join_layout {collection : String} {join : AxQueryJoinPlan}
    (source : Unquoted dialect collection) (target : Unquoted dialect join.collection)
    (columns : ∀ column ∈ join.columns,
      Unquoted dialect column.source ∧ Unquoted dialect column.target) :
    Follows dialect.style false (joinLayout collection join)
      (.word "inner" :: (joinPlan collection join).tokens) := by
  have pairs : ∀ column ∈ join.columns, Reads dialect.style (joinColumnLayout collection join column)
      (Predicate.compare (.column ⟨some collection, column.source⟩) .eq
        (.column ⟨some join.collection, column.target⟩)).tokens := by
    intro column member
    obtain ⟨left, right⟩ := columns column member
    refine .name source (dot_name left ?_)
    exact (follows_text " = " [.symbol "="] (between (by simp [betweens]))
      (.name target (dot_name right .nil))).weaken
  have on := follows_text " on " [.word "on"] (between (by simp [betweens])) (conjunction_layout pairs)
  exact follows_text " inner join " [.word "inner", .word "join"] (between (by simp [betweens]))
    (.name target on.weaken)

theorem joins_layout {collection : String} {joins : List AxQueryJoinPlan}
    (each : ∀ join ∈ joins, Follows dialect.style false (joinLayout collection join)
      (.word "inner" :: (joinPlan collection join).tokens)) :
    Follows dialect.style false (joins.flatMap (joinLayout collection))
      ((joins.map (joinPlan collection)).flatMap fun join => .word "inner" :: join.tokens) := by
  induction joins with
  | nil => exact .nil
  | cons first rest ih =>
    obtain ⟨head, tail⟩ := List.forall_mem_cons.mp each
    exact head.append (ih tail)

theorem query_layout {plan : AxQueryPlan} (checked : Statement.QueryChecked plan) :
    Reads dialect.style (queryLayout (Statement.sourceName plan.source) plan)
      (querySelect (Statement.sourceName plan.source) plan).tokens := by
  obtain ⟨-, source, qualifiers, known, filters, orders⟩ := checked
  have column {field : String} (checked : FieldChecked qualifiers field) :
      Reads dialect.style (fieldLayout field (Statement.sourceName plan.source) (!plan.joins.isEmpty))
        (fieldColumn field (Statement.sourceName plan.source) (!plan.joins.isEmpty)).tokens :=
    column_layout fun name member => unquoted (checked.valid source name member)
  have joins : Follows dialect.style false
      (plan.joins.flatMap (joinLayout (Statement.sourceName plan.source)))
      ((plan.joins.map (joinPlan (Statement.sourceName plan.source))).flatMap fun join =>
        .word "inner" :: join.tokens) := by
    refine joins_layout fun join member => ?_
    obtain ⟨target, columns⟩ := validateJoins_valid known join member
    exact join_layout (unquoted source) (unquoted target) fun pair among =>
      ⟨unquoted (columns pair among).1, unquoted (columns pair among).2⟩
  have clauses := where_layout fun filter member =>
    filter_layout .query filter (column (filters filter member).1)
  have keys : Follows dialect.style false
      (orderByLayout (plan.orders.map (orderLayout fun name =>
        fieldLayout name (Statement.sourceName plan.source) (!plan.joins.isEmpty))))
      (SqlText.orderTokens (plan.orders.map (orderKey fun name =>
        fieldColumn name (Statement.sourceName plan.source) (!plan.joins.isEmpty)))) :=
    order_layout fun order member => column (orders order member)
  have starts (n : Nat) : breaking (" limit " ++ toString n) = true ∧
      breaking (" offset " ++ toString n) = true := by
    simp only [breaking, String.toList_append]
    exact ⟨rfl, rfl⟩
  have limit : Follows dialect.style false (numberLayout " limit " plan.limit)
      (SqlText.numberTokens "limit" plan.limit) :=
    number_layout plan.limit (between_opens (by simp [betweens])) fun n => (starts n).1
  have offset : Follows dialect.style false (numberLayout " offset " plan.offset)
      (SqlText.numberTokens "offset" plan.offset) :=
    number_layout plan.offset (between_opens (by simp [betweens])) fun n => (starts n).2
  have all := (select_layout plan.joins (unquoted source)).append
    (joins.append (clauses.append (keys.append (limit.append offset))))
  simp only [queryLayout, List.append_assoc]
  simpa [SqlText.Select.tokens, querySelect] using all

theorem names_layout {fields : List AxAssignmentPlan}
    (plain : ∀ field ∈ fields, Unquoted dialect field.name) :
    Reads dialect.style (Template.joinPieces ", " (fields.map fun field => [.name field.name]))
      (Grammar.joined (.symbol ",") (fields.map fun field => [(.name field.name : Tok AxRustExpr)])) := by
  have comma : Opens dialect.style ", " [(.symbol "," : Tok AxRustExpr)] :=
    opens_of (between_opens (by simp [betweens]))
  exact .joined (style_quote dialect) comma breaks_comma
    fun field member => .name (plain field member) .nil

theorem insert_layout {collection : String} {fields : List AxAssignmentPlan}
    (table : Unquoted dialect collection) (plain : ∀ field ∈ fields, Unquoted dialect field.name) :
    Reads dialect.style (insertLayout collection fields)
      (Statement.insert collection fields).planned.tokens := by
  have close : Follows dialect.style false ([.text ")"] : Layout) [.symbol ")"] :=
    follows_end ")" [.symbol ")"] (ends (by simp [endings]))
  have values : Reads dialect.style
      (Template.joinPieces ", " (fields.map fun field => [.hole field.value]) ++ [.text ")"])
      (Grammar.joined (.symbol ",") (fields.map fun field =>
        (Operand.value field.value).tokens) ++ [.symbol ")"]) := by
    have read := (values_layout (fields.map AxAssignmentPlan.value)).append close
    simpa only [List.map_map, Function.comp_def] using read
  have columns := (names_layout plain).append
    (follows_text ") values (" [.symbol ")", .word "values", .symbol "("] (between (by simp [betweens])) values)
  have all := reads_text "insert into " [.word "insert", .word "into"] (begins (by simp [beginnings]))
    (.name table (follows_text " (" [.symbol "("] (between (by simp [betweens])) columns).weaken)
  simp only [insertLayout, List.append_assoc, List.cons_append, List.nil_append]
  simpa [Statement.planned, SqlText.Statement.tokens, Function.comp_def] using all

theorem mutation_layout {filters : List AxQueryFilterPlan}
    (checked : Statement.MutationChecked filters) :
    ∀ filter ∈ filters, Reads dialect.style (filterLayout .mutation filter [.name filter.field])
      (filterPredicate .mutation filter ⟨none, filter.field⟩).tokens :=
  fun filter member => filter_layout .mutation filter (.name (unquoted (checked filter member).1) .nil)

theorem update_layout {collection : String} {fields : List AxAssignmentPlan}
    {filters : List AxQueryFilterPlan} (table : Unquoted dialect collection)
    (plain : ∀ field ∈ fields, Unquoted dialect field.name)
    (checked : Statement.MutationChecked filters) :
    Reads dialect.style (updateLayout collection fields filters)
      (Statement.update collection fields filters).planned.tokens := by
  have comma : Opens dialect.style ", " [(.symbol "," : Tok AxRustExpr)] :=
    opens_of (between_opens (by simp [betweens]))
  have pairs : ∀ field ∈ fields, Reads dialect.style
      [.name field.name, .text " = ", .hole field.value]
      (SqlText.assignmentTokens (field.name, (.value field.value : Operand AxRustExpr))) := by
    intro field member
    refine .name (plain field member) ?_
    exact (follows_text " = " [.symbol "="] (between (by simp [betweens]))
      (.hole (style_quote dialect) .nil)).weaken
  have assignments := Reads.joined (style_quote dialect) comma breaks_comma pairs
  have body := assignments.append (where_layout (mutation_layout checked))
  have all := reads_text "update " [.word "update"] (begins (by simp [beginnings]))
    (.name table (follows_text " set " [.word "set"] (between (by simp [betweens])) body).weaken)
  simp only [updateLayout, mutationWhere, List.cons_append, List.nil_append]
  simpa [Statement.planned, SqlText.Statement.tokens, mutationPredicates, Function.comp_def] using all

theorem delete_layout {collection : String} {filters : List AxQueryFilterPlan}
    (table : Unquoted dialect collection) (nonempty : filters ≠ [])
    (checked : Statement.MutationChecked filters) :
    Reads dialect.style (deleteLayout collection filters)
      (Statement.delete collection filters).planned.tokens := by
  have clauses := conjunction_layout (@mutation_layout dialect _ checked)
  have all := reads_text "delete from " [.word "delete", .word "from"] (begins (by simp [beginnings]))
    (.name table (follows_text " where " [.word "where"] (between (by simp [betweens])) clauses).weaken)
  cases filters with
  | nil => exact absurd rfl nonempty
  | cons first rest => exact all

/-- The text of a checked statement has the tokens of the statement that the plan describes. -/
theorem checked_layout {statement : Statement} (checked : statement.Checked) :
    Reads dialect.style statement.layout statement.planned.tokens := by
  cases statement with
  | query plan => exact query_layout checked
  | insert collection fields =>
    exact insert_layout (unquoted checked.1) fun field member => unquoted (checked.2.2 field member)
  | update collection fields filters =>
    exact update_layout (unquoted checked.1)
      (fun field member => unquoted (checked.2.1.2 field member)) checked.2.2
  | delete collection filters => exact delete_layout (unquoted checked.1) checked.2.1 checked.2.2

end Layouts

section Denotation

theorem filterPredicate_wellFormed (context : AxSqlFilterContext) (filter : AxQueryFilterPlan)
    (column : ColumnRef) : (filterPredicate context filter column).WellFormed := by
  unfold filterPredicate
  cases filter.op with
  | «in» | notIn =>
    rcases filterListValues filter.value with _ | (_ | ⟨value, rest⟩)
    · trivial
    · trivial
    · exact List.cons_ne_nil _ _
  | _ => trivial

/-- A checked join compares at least one pair of columns. -/
theorem validateJoins_columns {qualifiers known : List String} {joins : List AxQueryJoinPlan}
    (passed : validateJoins qualifiers joins = .ok known) :
    ∀ join ∈ joins, join.columns ≠ [] := by
  induction joins generalizing qualifiers with
  | nil => exact fun join member => nomatch member
  | cons first rest ih =>
    obtain ⟨_, _, passed⟩ := bind_ok.mp passed
    split at passed
    · cases passed
    · split at passed
      · cases passed
      · next some =>
        obtain ⟨_, _, passed⟩ := bind_ok.mp passed
        refine List.forall_mem_cons.mpr ⟨?_, ih passed⟩
        simpa using some

theorem planned_wellFormed {statement : Statement} (checked : statement.Checked) :
    statement.planned.WellFormed := by
  have predicates (context : AxSqlFilterContext) (filters : List AxQueryFilterPlan)
      (column : AxQueryFilterPlan → ColumnRef) :
      ∀ p ∈ filters.map (fun filter => filterPredicate context filter (column filter)),
        p.WellFormed := by
    intro p member
    obtain ⟨filter, _, rfl⟩ := List.mem_map.mp member
    exact filterPredicate_wellFormed context filter _
  cases statement with
  | query plan =>
    obtain ⟨-, -, qualifiers, known, -, -⟩ := checked
    refine ⟨fun join member => ?_, predicates _ _ _⟩
    obtain ⟨source, among, rfl⟩ := List.mem_map.mp member
    refine ⟨by simpa [joinPlan] using validateJoins_columns known source among, ?_⟩
    intro p compared
    obtain ⟨column, _, rfl⟩ := List.mem_map.mp compared
    trivial
  | insert collection fields =>
    exact ⟨by simpa using checked.2.1, by simpa using checked.2.1⟩
  | update collection fields filters =>
    exact ⟨by simpa using checked.2.1.1, predicates _ _ _⟩
  | delete collection filters => exact predicates _ _ _

theorem planned_paged_iff (dialect : AxSqlDialect) (statement : Statement) :
    statement.planned.Paged dialect.grammar ↔ statement.OffsetLegal dialect := by
  cases statement with
  | query plan => simp [Statement.planned, SqlText.Statement.Paged, SqlText.Select.Paged, querySelect,
      Statement.OffsetLegal, AxSqlDialect.grammar]
  | insert | update | delete => exact Iff.rfl

/-- The posts after the first five, with their authors, newest first. -/
def laterPosts (limit : Option Nat) : Statement :=
  .query ⟨.stream "posts", [⟨"users", [⟨"author", "id"⟩]⟩], [⟨"status", .eq, ⟨"status"⟩⟩],
    [⟨"created", .desc⟩], limit, some 5⟩

/-- Its text in SQLite, up to the clauses of the page. -/
def laterPostsText (page : String) : AxSqlStatement where
  sql := "select \"posts\".* from \"posts\" inner join \"users\"" ++
    " on \"posts\".\"author\" = \"users\".\"id\" where \"posts\".\"status\" = ?" ++
    " order by \"posts\".\"created\" desc" ++ page
  params := [⟨1, ⟨"status"⟩⟩]

end Denotation

end Axonyx.Core.Sql
