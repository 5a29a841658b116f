import Axonyx.Core.SqlStatement

/-! Safety of compiled statements: the text reads back as the layout of the plan, its
placeholders are the parameters, and it is the same for all values of the plan. Names are
quoted as they stand in the plan, although they are checked after trimming. -/
namespace Axonyx.Core.Sql

open Template
open Outcome (bind_ok bind_unit_ok)

section Identifiers

/-- A nonempty word of letters, digits and underscores. -/
def Word (name : List Char) : Prop := name ≠ [] ∧ ∀ c ∈ name, identChar c = true

theorem validateIdent_ok {ident : String} :
    validateIdent ident = .ok () ↔ Word (Text.trim ident).toList := by
  have empty : (Text.trim ident).isEmpty = true ↔ (Text.trim ident).toList = [] := by simp
  unfold validateIdent Word
  by_cases blank : (Text.trim ident).isEmpty = true
  · simp [blank, empty.mp blank]
  · have visible := mt empty.mpr blank
    by_cases legal : (Text.trim ident).toList.all identChar = true
    · simp only [blank, legal, Bool.false_eq_true, if_false, if_true, true_iff]
      exact ⟨visible, List.all_eq_true.mp legal⟩
    · simp only [Bool.not_eq_true] at blank legal
      simp only [blank, legal, Bool.false_eq_true, if_false, reduceCtorEq, false_iff, not_and]
      exact fun _ every => by simp [List.all_eq_true.mpr every] at legal

theorem identChar_solid {c : Char} (legal : identChar c = true) : Text.isWhitespace c = false := by
  simp only [identChar, Char.isAlphanum, Identifiers.isAlpha_eq, Identifiers.isUpper_eq, Identifiers.isLower_eq, Char.isDigit,
    Bool.or_eq_true, Bool.and_eq_true, decide_eq_true_eq, UInt32.le_iff_toNat_le] at legal
  have value : c.toNat = c.val.toNat := rfl
  have bounds : 48 ≤ c.toNat ∧ c.toNat ≤ 122 := by
    rcases legal with ((upper | lower) | digit) | rfl
    · simp at upper; omega
    · simp at lower; omega
    · simp at digit; omega
    · decide
  simp only [Text.isWhitespace, Bool.or_eq_false_iff, Bool.and_eq_false_iff, decide_eq_false_iff_not]
  omega

/-- A checked identifier is a word exactly when it has no white space around it. -/
theorem word_iff_trimmed {ident : String} (valid : validateIdent ident = .ok ()) :
    Word ident.toList ↔ Text.trim ident = ident := by
  constructor
  · exact fun word => Text.trim_solid fun c member => identChar_solid (word.2 c member)
  · intro same
    rw [← same]
    exact validateIdent_ok.mp valid

theorem valid_unquoted (dialect : AxSqlDialect) {ident : String}
    (valid : validateIdent ident = .ok ()) : ∀ c ∈ ident.toList, c ≠ dialect.style.quote := by
  intro c member
  rcases Text.mem_trim ident member with blank | inner
  · rintro rfl
    cases dialect <;> cases blank
  · have legal := (validateIdent_ok.mp valid).2 c inner
    rintro rfl
    cases dialect <;> cases legal

end Identifiers

section Names

def Valid (layout : Layout) : Prop := ∀ name ∈ names layout, validateIdent name = .ok ()

theorem Valid.nameless {layout : Layout} (none : names layout = []) : Valid layout := by
  intro name member
  rw [none] at member
  cases member

theorem Valid.append {a b : Layout} (first : Valid a) (second : Valid b) : Valid (a ++ b) := by
  intro name member
  rw [names_append] at member
  rcases List.mem_append.mp member with before | after
  · exact first name before
  · exact second name after

theorem Valid.join {separator : String} {parts : List Layout} (valid : ∀ part ∈ parts, Valid part) :
    Valid (joinPieces separator parts) := by
  intro name member
  rw [names_joinPieces] at member
  obtain ⟨part, inside, member⟩ := List.mem_flatMap.mp member
  exact valid part inside name member

theorem Valid.where {clauses : List Layout} (valid : ∀ clause ∈ clauses, Valid clause) :
    Valid (whereLayout clauses) := by
  unfold whereLayout
  split
  · exact Valid.nameless rfl
  · exact Valid.join valid

theorem Valid.orderBy {clauses : List Layout} (valid : ∀ clause ∈ clauses, Valid clause) :
    Valid (orderByLayout clauses) := by
  unfold orderByLayout
  split
  · exact Valid.nameless rfl
  · exact Valid.join valid

theorem Valid.name {ident : String} (valid : validateIdent ident = .ok ()) :
    Valid [.name ident] := by
  intro name member
  rw [List.mem_singleton.mp member]
  exact valid

theorem Valid.filter {context : AxSqlFilterContext} {filter : AxQueryFilterPlan} {field : Layout}
    (valid : Valid field) : Valid (filterLayout context filter field) := by
  have list (keyword : String) (values : List AxRustExpr) :
      Valid (listLayout field keyword values) := by
    have marks : ∀ part ∈ values.map fun value => ([.hole value] : Layout), Valid part := by
      intro part member
      obtain ⟨value, -, rfl⟩ := List.mem_map.mp member
      exact Valid.nameless rfl
    exact ((valid.append (Valid.nameless rfl)).append (Valid.join marks)).append
      (Valid.nameless rfl)
  unfold filterLayout
  split
  · exact valid.append (Valid.nameless rfl)
  · exact valid.append (Valid.nameless rfl)
  · split
    · exact Valid.nameless rfl
    · exact Valid.nameless rfl
    · exact list "in" _
  · split
    · exact Valid.nameless rfl
    · exact Valid.nameless rfl
    · exact list "not in" _
  · exact valid.append (Valid.nameless rfl)
  · exact valid.append (Valid.nameless rfl)

theorem FieldChecked.valid {qualifiers : List String} {field source : String}
    {qualifySource : Bool} (checked : FieldChecked qualifiers field)
    (known : validateIdent source = .ok ()) : Valid (fieldLayout field source qualifySource) := by
  unfold FieldChecked at checked
  unfold fieldLayout
  cases split : Text.splitOnce field "." with
  | some parts =>
    rw [split] at checked
    intro name member
    simp only [names, List.mem_cons, List.not_mem_nil, or_false] at member
    rcases member with rfl | rfl
    · exact checked.1
    · exact checked.2.1
  | none =>
    rw [split] at checked
    cases qualifySource with
    | false => exact Valid.name checked
    | true =>
      intro name member
      simp only [if_true, names, List.mem_cons, List.not_mem_nil, or_false] at member
      rcases member with rfl | rfl
      · exact known
      · exact checked

theorem validateJoinColumns_valid {collection : String} {sources targets : List String}
    {columns : List AxQueryJoinColumnPlan}
    (passed : validateJoinColumns collection sources targets columns = .ok ()) :
    ∀ column ∈ columns,
      validateIdent column.source = .ok () ∧ validateIdent column.target = .ok () := by
  induction columns generalizing sources targets with
  | nil => exact fun column member => nomatch member
  | cons column rest ih =>
    simp only [validateJoinColumns, bind_ok] at passed
    obtain ⟨_, source, _, target, passed⟩ := passed
    split at passed
    · cases passed
    · intro other member
      rcases List.mem_cons.mp member with rfl | later
      · exact ⟨source, target⟩
      · exact ih passed other later

theorem validateJoins_valid {qualifiers known : List String} {joins : List AxQueryJoinPlan}
    (passed : validateJoins qualifiers joins = .ok known) :
    ∀ join ∈ joins, validateIdent join.collection = .ok () ∧ ∀ column ∈ join.columns,
      validateIdent column.source = .ok () ∧ validateIdent column.target = .ok () := by
  induction joins generalizing qualifiers with
  | nil => exact fun join member => nomatch member
  | cons join rest ih =>
    simp only [validateJoins, bind_ok] at passed
    obtain ⟨_, collection, passed⟩ := passed
    split at passed
    · cases passed
    · split at passed
      · cases passed
      · obtain ⟨_, columns, passed⟩ := bind_ok.mp passed
        intro other member
        rcases List.mem_cons.mp member with rfl | later
        · exact ⟨collection, validateJoinColumns_valid columns⟩
        · exact ih passed other later

theorem Valid.joins {collection : String} {qualifiers known : List String}
    {joins : List AxQueryJoinPlan} (source : validateIdent collection = .ok ())
    (passed : validateJoins qualifiers joins = .ok known) :
    Valid (joins.flatMap (joinLayout collection)) := by
  have checked := validateJoins_valid passed
  have one (join : AxQueryJoinPlan) (member : join ∈ joins) : Valid (joinLayout collection join) := by
    obtain ⟨target, columns⟩ := checked join member
    refine Valid.append ?_ (Valid.join ?_)
    · exact Valid.name target
    · intro part inside
      obtain ⟨column, within, rfl⟩ := List.mem_map.mp inside
      obtain ⟨left, right⟩ := columns column within
      intro name member
      simp only [joinColumnLayout, names, List.mem_cons, List.not_mem_nil, or_false] at member
      rcases member with rfl | rfl | rfl | rfl
      · exact source
      · exact left
      · exact target
      · exact right
  clear passed checked
  induction joins with
  | nil => exact Valid.nameless rfl
  | cons join rest ih =>
    rw [List.flatMap_cons]
    exact (one join List.mem_cons_self).append
      (ih fun other member => one other (List.mem_cons_of_mem _ member))

theorem Valid.mutationWhere {filters : List AxQueryFilterPlan}
    (checked : Statement.MutationChecked filters) : ∀ clause ∈ mutationWhere filters, Valid clause := by
  intro clause member
  obtain ⟨filter, inside, rfl⟩ := List.mem_map.mp member
  exact Valid.filter (Valid.name (checked filter inside).1)

theorem Valid.query {plan : AxQueryPlan} (checked : Statement.QueryChecked plan) :
    Valid (queryLayout (Statement.sourceName plan.source) plan) := by
  obtain ⟨-, source, qualifiers, joins, filters, orders⟩ := checked
  have number (keyword : String) (n : Option Nat) : Valid (numberLayout keyword n) := by
    cases n <;> exact Valid.nameless rfl
  have select : Valid (selectLayout (Statement.sourceName plan.source) plan.joins) := by
    intro name member
    have same : name = Statement.sourceName plan.source := by
      unfold selectLayout at member
      split at member <;> simpa [names] using member
    rw [same]
    exact source
  refine ((((select.append (Valid.joins source joins)).append (Valid.where ?_)).append
    (Valid.orderBy ?_)).append (number _ _)).append (number _ _)
  · intro clause member
    obtain ⟨filter, inside, rfl⟩ := List.mem_map.mp member
    exact Valid.filter ((filters filter inside).1.valid source)
  · intro clause member
    obtain ⟨order, inside, rfl⟩ := List.mem_map.mp member
    exact ((orders order inside).valid source).append (Valid.nameless rfl)

theorem Valid.insert {collection : String} {fields : List AxAssignmentPlan}
    (source : validateIdent collection = .ok ()) (checked : Statement.FieldsChecked fields) :
    Valid (insertLayout collection fields) := by
  refine ((Valid.append (Valid.append ?_ (Valid.join ?_)) (Valid.nameless rfl)).append
    (Valid.join ?_)).append (Valid.nameless rfl)
  · exact Valid.name source
  · intro part member
    obtain ⟨field, inside, rfl⟩ := List.mem_map.mp member
    exact Valid.name (checked.2 field inside)
  · intro part member
    obtain ⟨field, inside, rfl⟩ := List.mem_map.mp member
    exact Valid.nameless rfl

theorem Valid.update {collection : String} {fields : List AxAssignmentPlan}
    {filters : List AxQueryFilterPlan} (source : validateIdent collection = .ok ())
    (checked : Statement.FieldsChecked fields) (clauses : Statement.MutationChecked filters) :
    Valid (updateLayout collection fields filters) := by
  refine (Valid.append ?_ (Valid.join ?_)).append (Valid.where (Valid.mutationWhere clauses))
  · exact Valid.name source
  · intro part member
    obtain ⟨field, inside, rfl⟩ := List.mem_map.mp member
    exact Valid.name (checked.2 field inside)

/-- Every name that a checked statement shows was validated. -/
theorem Statement.Checked.valid {statement : Statement} (checked : statement.Checked) :
    Valid statement.layout := by
  cases statement with
  | query plan => exact Valid.query checked
  | insert collection fields => exact Valid.insert checked.1 checked.2
  | update collection fields filters => exact Valid.update checked.1 checked.2.1 checked.2.2
  | delete collection filters =>
    exact Valid.append (Valid.name checked.1) (Valid.join (Valid.mutationWhere checked.2.2))

end Names

section Texts

theorem clean_holes (values : List AxRustExpr) (after : Bool) :
    Clean after (joinPieces ", " (values.map fun value => ([.hole value] : Layout))) := by
  refine Clean.join rfl fun part member => ?_
  obtain ⟨value, -, rfl⟩ := List.mem_map.mp member
  trivial

theorem clean_field (field source : String) (qualifySource after : Bool) :
    Clean after (fieldLayout field source qualifySource) := by
  have dot (name : String) : Clean false [(.text "." : Piece AxRustExpr), .name name] :=
    Clean.text rfl trivial
  unfold fieldLayout
  split
  · exact dot _
  · split
    · exact dot _
    · trivial

theorem clean_filter {field : Layout} (clean : Clean true field) (context : AxSqlFilterContext)
    (filter : AxQueryFilterPlan) : Clean false (filterLayout context filter field) := by
  have list (keyword : String) (values : List AxRustExpr)
      (plain : plainText (" " ++ keyword ++ " (") = true) :
      Clean false (listLayout field keyword values) :=
    ((clean.weaken.append (Clean.last plain)).append (clean_holes values true)).append
      (Clean.last rfl)
  have constant (text : String) (legal : ∀ c ∈ text.toList, plainChar c = true)
      (nonempty : text.toList ≠ []) : Clean false [(.text text : Piece AxRustExpr)] :=
    ⟨nonempty, legal, fun impossible => (nomatch impossible), trivial⟩
  unfold filterLayout
  split
  · exact clean.weaken.append (Clean.text rfl trivial)
  · exact clean.weaken.append (Clean.text rfl trivial)
  · split
    · exact constant "1 = 0" (by decide) (by decide)
    · exact constant "1 = 0" (by decide) (by decide)
    · exact list "in" _ rfl
  · split
    · cases context
      · exact constant "1 = 1" (by decide) (by decide)
      · exact constant "1 = 0" (by decide) (by decide)
    · cases context
      · exact constant "1 = 1" (by decide) (by decide)
      · exact constant "1 = 0" (by decide) (by decide)
    · exact list "not in" _ rfl
  · exact clean.weaken.append (Clean.last rfl)
  · exact clean.weaken.append (Clean.last rfl)

theorem clean_where {clauses : List Layout} (clean : ∀ clause ∈ clauses, Clean false clause)
    (after : Bool) : Clean after (whereLayout clauses) := by
  unfold whereLayout
  split
  · trivial
  · exact Clean.text rfl (Clean.join rfl clean)

theorem clean_orderBy {clauses : List Layout} (clean : ∀ clause ∈ clauses, Clean false clause)
    (after : Bool) : Clean after (orderByLayout clauses) := by
  unfold orderByLayout
  split
  · trivial
  · exact Clean.text rfl (Clean.join rfl clean)

theorem clean_number {keyword : String} (plain : plainText keyword = true) (number : Option Nat)
    (after : Bool) : Clean after (numberLayout keyword number) := by
  cases number with
  | none => trivial
  | some n =>
    obtain ⟨nonempty, legal, first, -⟩ :=
      (Clean.last plain : Clean true [(.text keyword : Piece Unit)])
    have digits : ∀ c ∈ (toString n).toList, plainChar c = true := by
      intro c member
      rw [Nat.toString_eq_repr, Nat.toList_repr] at member
      have digit := Nat.isDigit_of_mem_toDigits (by decide) (by decide) member
      unfold plainChar
      simp only [Bool.and_eq_true, decide_eq_true_eq]
      refine ⟨⟨⟨?_, ?_⟩, ?_⟩, ?_⟩ <;> (rintro rfl; cases digit)
    refine ⟨?_, ?_, fun _ => ?_, trivial⟩
    · simp [nonempty]
    · rw [String.toList_append]
      exact List.forall_mem_append.mpr ⟨legal, digits⟩
    · rw [String.toList_append, List.head?_append_of_ne_nil _ nonempty]
      exact first rfl

theorem clean_joins (collection : String) (joins : List AxQueryJoinPlan) (after : Bool) :
    Clean after (joins.flatMap (joinLayout collection)) := by
  induction joins generalizing after with
  | nil => trivial
  | cons join rest ih =>
    rw [List.flatMap_cons]
    refine (Clean.append ?_ (Clean.join rfl fun part member => ?_)).append (ih true)
    · exact Clean.text rfl (Clean.text rfl trivial)
    · obtain ⟨column, -, rfl⟩ := List.mem_map.mp member
      exact Clean.text rfl (Clean.text rfl (Clean.text rfl trivial))

theorem clean_mutationWhere (filters : List AxQueryFilterPlan) :
    ∀ clause ∈ mutationWhere filters, Clean false clause := by
  intro clause member
  obtain ⟨filter, -, rfl⟩ := List.mem_map.mp member
  have name : Clean true ([.name filter.field] : Layout) := trivial
  exact clean_filter name _ _

theorem clean_query (collection : String) (plan : AxQueryPlan) :
    Clean false (queryLayout collection plan) := by
  have select : Clean false (selectLayout collection plan.joins) := by
    unfold selectLayout
    split
    · exact Clean.text rfl trivial
    · exact Clean.text rfl (Clean.text rfl trivial)
  refine ((((select.append (clean_joins _ _ true)).append (clean_where ?_ true)).append
    (clean_orderBy ?_ true)).append (clean_number rfl _ true)).append (clean_number rfl _ true)
  · intro clause member
    obtain ⟨filter, -, rfl⟩ := List.mem_map.mp member
    exact clean_filter (clean_field _ _ _ true) _ _
  · intro clause member
    obtain ⟨order, -, rfl⟩ := List.mem_map.mp member
    refine (clean_field _ _ _ false).append (Clean.last ?_)
    cases order.direction <;> rfl

theorem clean_insert (collection : String) (fields : List AxAssignmentPlan) :
    Clean false (insertLayout collection fields) := by
  have columns : Clean true
      (joinPieces ", " (fields.map fun field => ([.name field.name] : Layout))) := by
    refine Clean.join rfl fun part member => ?_
    obtain ⟨field, -, rfl⟩ := List.mem_map.mp member
    trivial
  have values : Clean true
      (joinPieces ", " (fields.map fun field => ([.hole field.value] : Layout))) := by
    refine Clean.join rfl fun part member => ?_
    obtain ⟨field, -, rfl⟩ := List.mem_map.mp member
    trivial
  refine (((Clean.append ?_ columns).append (Clean.last rfl)).append values).append (Clean.last rfl)
  exact Clean.text rfl (Clean.last rfl)

theorem clean_update (collection : String) (fields : List AxAssignmentPlan)
    (filters : List AxQueryFilterPlan) : Clean false (updateLayout collection fields filters) := by
  have pairs : Clean true (joinPieces ", " (fields.map fun field =>
      ([.name field.name, .text " = ", .hole field.value] : Layout))) := by
    refine Clean.join rfl fun part member => ?_
    obtain ⟨field, -, rfl⟩ := List.mem_map.mp member
    exact Clean.text rfl trivial
  refine (Clean.append ?_ pairs).append (clean_where (clean_mutationWhere filters) true)
  exact Clean.text rfl (Clean.last rfl)

theorem clean_delete (collection : String) (filters : List AxQueryFilterPlan) :
    Clean false (deleteLayout collection filters) :=
  Clean.text rfl (Clean.text rfl (Clean.join rfl (clean_mutationWhere filters)))

theorem Statement.clean (statement : Statement) : Clean false statement.layout := by
  cases statement with
  | query plan => exact clean_query _ plan
  | insert collection fields => exact clean_insert collection fields
  | update collection fields filters => exact clean_update collection fields filters
  | delete collection filters => exact clean_delete collection filters

end Texts

section Values

/-- The same filter with another value; a list has as many items. -/
structure SameFilter (a b : AxQueryFilterPlan) : Prop where
  field : a.field = b.field
  op : a.op = b.op
  list : a.op = .in ∨ a.op = .notIn →
    (filterListValues a.value).map List.length = (filterListValues b.value).map List.length

/-- Statements that differ in their values only. -/
inductive SameShape : Statement → Statement → Prop
  | query {a b : AxQueryPlan} (source : a.source = b.source) (joins : a.joins = b.joins)
      (filters : List.Forall₂ SameFilter a.filters b.filters) (orders : a.orders = b.orders)
      (limit : a.limit = b.limit) (offset : a.offset = b.offset) : SameShape (.query a) (.query b)
  | insert {collection : String} {a b : List AxAssignmentPlan}
      (fields : List.Forall₂ (fun x y => x.name = y.name) a b) :
      SameShape (.insert collection a) (.insert collection b)
  | update {collection : String} {a b : List AxAssignmentPlan} {f g : List AxQueryFilterPlan}
      (fields : List.Forall₂ (fun x y => x.name = y.name) a b)
      (filters : List.Forall₂ SameFilter f g) :
      SameShape (.update collection a f) (.update collection b g)
  | delete {collection : String} {f g : List AxQueryFilterPlan}
      (filters : List.Forall₂ SameFilter f g) :
      SameShape (.delete collection f) (.delete collection g)

theorem SameFilter.checked {a b : AxQueryFilterPlan} (same : SameFilter a b)
    (checked : FilterChecked a) : FilterChecked b := by
  intro op
  have lists := same.list (same.op ▸ op)
  obtain ⟨values, found⟩ := checked (same.op ▸ op)
  rw [found] at lists
  obtain ⟨others, present, -⟩ := Option.map_eq_some_iff.mp lists.symm
  exact ⟨others, present⟩

theorem forget_list (field : Layout) (keyword : String) {a b : List AxRustExpr}
    (same : a.length = b.length) : (listLayout field keyword a).map forget =
      (listLayout field keyword b).map forget := by
  have marks (values : List AxRustExpr) :
      (values.map fun value => ([.hole value] : Layout)).map (List.map forget) =
        List.replicate values.length [.hole ()] := by
    simp [forget, Function.comp_def]
  simp only [listLayout, List.map_append, forget_joinPieces, marks, same]

theorem lists_same {a b : Option (List AxRustExpr)} (same : a.map List.length = b.map List.length) :
    (a = none ∧ b = none) ∨ (a = some [] ∧ b = some []) ∨ ∃ x xs y ys,
      a = some (x :: xs) ∧ b = some (y :: ys) ∧ (x :: xs).length = (y :: ys).length := by
  rcases a with _ | (_ | ⟨x, xs⟩) <;> rcases b with _ | (_ | ⟨y, ys⟩)
  case none.none => exact .inl ⟨rfl, rfl⟩
  case some.nil.some.nil => exact .inr (.inl ⟨rfl, rfl⟩)
  case some.cons.some.cons => exact .inr (.inr ⟨x, xs, y, ys, rfl, rfl, Option.some.inj same⟩)
  all_goals cases same

theorem SameFilter.layout {a b : AxQueryFilterPlan} (same : SameFilter a b)
    (context : AxSqlFilterContext) (field : Layout) :
    (filterLayout context a field).map forget = (filterLayout context b field).map forget := by
  obtain ⟨-, op, list⟩ := same
  unfold filterLayout
  rw [← op]
  cases kind : a.op with
  | eq | ne | isNull | isNotNull => simp [forget]
  | «in» =>
    obtain ⟨left, right⟩ | ⟨left, right⟩ | ⟨x, xs, y, ys, left, right, same⟩ :=
      lists_same (list (.inl kind))
    · rw [left, right]
    · rw [left, right]
    · rw [left, right]
      exact forget_list field "in" same
  | notIn =>
    obtain ⟨left, right⟩ | ⟨left, right⟩ | ⟨x, xs, y, ys, left, right, same⟩ :=
      lists_same (list (.inr kind))
    · rw [left, right]
    · rw [left, right]
    · rw [left, right]
      exact forget_list field "not in" same

theorem forget_map {α : Type} {related : α → α → Prop} (layout : α → Layout)
    (one : ∀ a b, related a b → (layout a).map forget = (layout b).map forget) {as bs : List α}
    (same : List.Forall₂ related as bs) :
    (as.map layout).map (List.map forget) = (bs.map layout).map (List.map forget) := by
  induction same with
  | nil => rfl
  | cons head tail ih => simp only [List.map_cons, one _ _ head, ih]

theorem forget_where {a b : List Layout} (same : a.map (List.map forget) = b.map (List.map forget)) :
    (whereLayout a).map forget = (whereLayout b).map forget := by
  have texts (clauses : List Layout) : (whereLayout clauses).map forget =
      if (clauses.map (List.map forget)).isEmpty then [] else
        .text " where " :: joinPieces " and " (clauses.map (List.map forget)) := by
    cases clauses with
    | nil => rfl
    | cons clause rest => simp [whereLayout, forget, forget_joinPieces]
  rw [texts, texts, same]

theorem forget_mutationWhere {a b : List AxQueryFilterPlan} (same : List.Forall₂ SameFilter a b) :
    (mutationWhere a).map (List.map forget) = (mutationWhere b).map (List.map forget) := by
  refine forget_map _ (fun x y related => ?_) same
  rw [related.field, related.layout]

/-- Layouts of statements with the same shape differ in the values only. -/
theorem SameShape.layout {a b : Statement} (same : SameShape a b) :
    a.layout.map forget = b.layout.map forget := by
  cases same with
  | @query a b source joins filters orders limit offset =>
    have clauses (field : String → Layout) :
        (a.filters.map fun filter => filterLayout .query filter (field filter.field)).map
            (List.map forget) =
          (b.filters.map fun filter => filterLayout .query filter (field filter.field)).map
            (List.map forget) :=
      forget_map _ (fun x y related => by rw [related.field, related.layout]) filters
    simp only [Statement.layout, queryLayout, List.map_append, source, joins, orders, limit, offset]
    rw [forget_where (clauses fun name => fieldLayout name (Statement.sourceName b.source) _)]
  | insert fields =>
    have names := forget_map (fun field : AxAssignmentPlan => [.name field.name])
      (fun x y related => by rw [related]) fields
    have values := forget_map (fun field : AxAssignmentPlan => [.hole field.value])
      (fun x y related => rfl) fields
    simp only [Statement.layout, insertLayout, List.map_append, forget_joinPieces, names, values]
  | update fields filters =>
    have pairs := forget_map (fun field : AxAssignmentPlan =>
      [.name field.name, .text " = ", .hole field.value]) (fun x y related => by
        simp [related, forget]) fields
    simp only [Statement.layout, updateLayout, List.map_append, forget_joinPieces, pairs,
      forget_where (forget_mutationWhere filters)]
  | delete filters =>
    simp only [Statement.layout, deleteLayout, List.map_append, forget_joinPieces,
      forget_mutationWhere filters]

theorem filters_same (checked : String → Prop) {f g : List AxQueryFilterPlan}
    (same : List.Forall₂ SameFilter f g)
    (passed : ∀ filter ∈ f, checked filter.field ∧ FilterChecked filter) :
    ∀ filter ∈ g, checked filter.field ∧ FilterChecked filter := by
  induction same with
  | nil => exact passed
  | cons head tail ih =>
    obtain ⟨first, later⟩ := List.forall_mem_cons.mp passed
    exact List.forall_mem_cons.mpr ⟨⟨head.field ▸ first.1, head.checked first.2⟩, ih later⟩

theorem FieldsChecked.same {a b : List AxAssignmentPlan}
    (same : List.Forall₂ (fun x y => x.name = y.name) a b) (checked : Statement.FieldsChecked a) :
    Statement.FieldsChecked b := by
  obtain ⟨nonempty, names⟩ := checked
  refine ⟨fun empty => nonempty ?_, ?_⟩
  · rw [empty] at same
    cases same
    rfl
  · clear nonempty
    induction same with
    | nil => exact names
    | cons head tail ih =>
      obtain ⟨first, later⟩ := List.forall_mem_cons.mp names
      exact List.forall_mem_cons.mpr ⟨head ▸ first, ih later⟩

theorem SameShape.checked {a b : Statement} (same : SameShape a b) (checked : a.Checked) :
    b.Checked := by
  cases same with
  | @query a b source joins filters orders limit offset =>
    obtain ⟨stored, valid, qualifiers, known, clauses, sorted⟩ := checked
    exact ⟨source ▸ stored, source ▸ valid, qualifiers, source ▸ joins ▸ known,
      filters_same _ filters clauses, orders ▸ sorted⟩
  | insert fields => exact ⟨checked.1, FieldsChecked.same fields checked.2⟩
  | update fields filters =>
    exact ⟨checked.1, FieldsChecked.same fields checked.2.1,
      filters_same (validateIdent · = .ok ()) filters checked.2.2⟩
  | delete filters =>
    obtain ⟨valid, nonempty, clauses⟩ := checked
    refine ⟨valid, fun empty => nonempty ?_, filters_same (validateIdent · = .ok ()) filters clauses⟩
    rw [empty] at filters
    cases filters
    rfl

theorem SameShape.compile (dialect : AxSqlDialect) {a b : Statement} {result : AxSqlStatement}
    (same : SameShape a b) (compiled : a.compile dialect = .ok result) :
    ∃ other, b.compile dialect = .ok other ∧ other.sql = result.sql := by
  obtain ⟨checked, rfl⟩ := (compile_ok dialect).mp compiled
  refine ⟨_, (compile_ok dialect).mpr ⟨same.checked checked, rfl⟩, ?_⟩
  simp only [Statement.output, emit]
  rw [← render_forget, ← same.layout, render_forget]

end Values

section Safety

variable (dialect : AxSqlDialect)

/-- What a reader of the compiled text finds: the placeholders are the parameters, in order
and in the places where the plan attaches their values; names are words; and the values
have no influence on the text. -/
structure Safe (statement : Statement) (compiled : AxSqlStatement) : Prop where
  count : (placeholders (read dialect.style compiled.sql)).length = compiled.params.length
  numbered : compiled.params.map AxSqlParam.index = List.range' 1 compiled.params.length
  marks : placeholders (read dialect.style compiled.sql) = compiled.params.map fun param =>
    if dialect.style.numbered then (toString param.index).toList else []
  places : read dialect.style compiled.sql = tokens dialect.style 1 statement.layout
  values : compiled.params.map AxSqlParam.value = holes statement.layout
  words : ∀ name ∈ quotedNames (read dialect.style compiled.sql), Word name
  independent : ∀ other, SameShape statement other →
    ∃ result, other.compile dialect = .ok result ∧ result.sql = compiled.sql

theorem numberParams_index (index : Nat) (values : List AxRustExpr) :
    (numberParams index values).map AxSqlParam.index = List.range' index values.length := by
  induction values generalizing index with
  | nil => rfl
  | cons value rest ih => simp [numberParams, ih, List.range'_succ]

theorem numberParams_value (index : Nat) (values : List AxRustExpr) :
    (numberParams index values).map AxSqlParam.value = values := by
  induction values generalizing index with
  | nil => rfl
  | cons value rest ih => simp [numberParams, ih]

/-- The text of a checked statement reads back as its layout. -/
theorem read_output {statement : Statement} (checked : statement.Checked) :
    read dialect.style (Statement.output dialect statement.layout).sql =
      tokens dialect.style 1 statement.layout :=
  read_render dialect.style (style_quote dialect) statement.clean
    (fun name member => valid_unquoted dialect (checked.valid name member)) 1

theorem output_params (layout : Layout) :
    (Statement.output dialect layout).params = numberParams 1 (holes layout) := by
  simp [Statement.output, emit]

/-- An update of one list-filtered row set. -/
def updatePosts : Statement :=
  .update "posts" [⟨"status", ⟨"input.status"⟩⟩] [⟨"id", .in, ⟨"[1, 2]"⟩⟩, ⟨"author", .isNull, ⟨""⟩⟩]

def paddedQuery : Statement :=
  .query ⟨.stream " posts", [], [], [], none, none⟩

end Safety

end Axonyx.Core.Sql
