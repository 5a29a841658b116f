import Axonyx.Core.JsonContract
import Axonyx.Core.SqlStatement
import Axonyx.Nesting

/-! JSON values as the code texts of a plan. A list literal is cut again at its commas, and the
text of any JSON value shows the scanner no comma and no bracket but its own. -/
namespace Axonyx.Core

open Nesting Text

section JsonText

mutual

/-- The compact text `serde_json` writes. -/
def Json.chars : Json → List Char
  | .null => "null".toList
  | .bool value => (toString value).toList
  | .number value => value.text.toList
  | .string value => quoteJson value
  | .array items => '[' :: ([','].intercalate (Json.itemChars items) ++ [']'])
  | .object fields => '{' :: ([','].intercalate (Json.fieldChars fields) ++ ['}'])

def Json.itemChars : List Json → List (List Char)
  | [] => []
  | item :: items => item.chars :: Json.itemChars items

def Json.fieldChars : List (String × Json) → List (List Char)
  | [] => []
  | (name, value) :: fields => (quoteJson name ++ ':' :: value.chars) :: Json.fieldChars fields

end

def Json.text (value : Json) : String := .ofList value.chars

theorem Json.itemChars_eq (items : List Json) : Json.itemChars items = items.map Json.chars := by
  induction items with
  | nil => rfl
  | cons item items ih => rw [itemChars, ih, List.map_cons]

end JsonText

section Scanning

/-- What the splitter of list literals counts. -/
def listRules : Rules := ⟨['"', '\''], some '\\', ['(', '[', '{'], [')', ']', '}']⟩

theorem inside_json (text : List Char) : Inside '\\' '"' (text.flatMap escapeJsonChar) := by
  have hex (n : Nat) : hexDigit n ≠ '\\' ∧ hexDigit n ≠ '"' := by
    by_cases digit : n < 16
    · exact (by decide : ∀ n < 16, hexDigit n ≠ '\\' ∧ hexDigit n ≠ '"') n digit
    · have zero : hexDigit n = '0' := by
        rw [hexDigit, List.getD_eq_getElem?_getD, List.getElem?_eq_none]
        · rfl
        · exact Nat.le_of_not_lt digit
      rw [zero]
      decide
  induction text with
  | nil => exact .nil
  | cons c rest ih =>
    rw [List.flatMap_cons]
    refine Inside.append ?_ ih
    unfold escapeJsonChar
    split_ifs with quote slash
    · exact .escaped .nil
    · exact .escaped .nil
    · exact .escaped .nil
    · exact .escaped .nil
    · exact .escaped .nil
    · exact .escaped .nil
    · exact .escaped .nil
    · exact .escaped (.plain (by decide) (.plain (by decide) (.plain (hex _) (.plain (hex _) .nil))))
    · exact .plain ⟨slash, quote⟩ .nil

theorem hidden_quoteJson (text : String) : Hidden listRules (quoteJson text) :=
  Hidden.literal rfl (inside_json text.toList) (by decide) (by decide)

theorem plain_number {c : Char} (written : isNumberChar c = true) : listRules.plain c = true ∧ c ≠ ',' := by
  have other {d : Char} (off : isNumberChar d = false) : c ≠ d := by
    rintro rfl
    rw [written] at off
    cases off
  have quotes : c ≠ '"' ∧ c ≠ '\'' := ⟨other (by decide), other (by decide)⟩
  have opens : c ≠ '(' ∧ c ≠ '[' ∧ c ≠ '{' := ⟨other (by decide), other (by decide), other (by decide)⟩
  have closes : c ≠ ')' ∧ c ≠ ']' ∧ c ≠ '}' := ⟨other (by decide), other (by decide), other (by decide)⟩
  refine ⟨?_, other (by decide)⟩
  simp [Rules.plain, listRules, quotes, opens, closes]

theorem pair_square : listRules.Pair '[' ']' := by constructor <;> decide

theorem pair_curly : listRules.Pair '{' '}' := by constructor <;> decide

theorem level_intercalate {parts : List (List Char)} (level : ∀ part ∈ parts, Level listRules part) :
    Level listRules ([','].intercalate parts) := by
  induction parts with
  | nil => exact level_nil
  | cons first rest ih =>
    have here := level first List.mem_cons_self
    cases rest with
    | nil => rwa [List.intercalate_singleton]
    | cons second rest =>
      rw [List.intercalate_cons_cons]
      have comma : Level listRules [','] := level_plain (by decide)
      exact (here.append comma).append (ih fun part member => level part (List.mem_cons_of_mem first member))

mutual

theorem Json.level : ∀ value : Json, Level listRules value.chars
  | .null => level_plain (by decide)
  | .bool value => level_plain (by cases value <;> decide)
  | .number value => level_plain fun c member => (plain_number (value.written c member)).1
  | .string value => (hidden_quoteJson value).level
  | .array items => (Hidden.group (level_intercalate (Json.level_items items)) pair_square).level
  | .object fields => (Hidden.group (level_intercalate (Json.level_fields fields)) pair_curly).level

theorem Json.level_items : ∀ items : List Json, ∀ part ∈ Json.itemChars items, Level listRules part
  | [] => fun _ member => absurd member List.not_mem_nil
  | item :: items => by
    intro part member
    rcases List.mem_cons.mp member with rfl | later
    · exact Json.level item
    · exact Json.level_items items part later

theorem Json.level_fields : ∀ fields : List (String × Json),
    ∀ part ∈ Json.fieldChars fields, Level listRules part
  | [] => fun _ member => absurd member List.not_mem_nil
  | (name, value) :: fields => by
    intro part member
    rcases List.mem_cons.mp member with rfl | later
    · have colon : Level listRules [':'] := level_plain (by decide)
      exact (hidden_quoteJson name).level.append (colon.append (Json.level value))
    · exact Json.level_fields fields part later

end

/-- The commas of a value are inside its own brackets and strings. -/
theorem Json.no_comma (value : Json) : ',' ∉ topChars listRules start value.chars := by
  have silent {text : List Char} (hidden : Hidden listRules text) : ',' ∉ topChars listRules start text := by
    rw [hidden.topChars]
    exact List.not_mem_nil
  cases value with
  | null => exact fun member => absurd (mem_of_topChars member) (by decide)
  | bool value => exact fun member => absurd (mem_of_topChars member) (by cases value <;> decide)
  | number value => exact fun member => (plain_number (value.written _ (mem_of_topChars member))).2 rfl
  | string value => exact silent (hidden_quoteJson value)
  | array items => exact silent (Hidden.group (level_intercalate (Json.level_items items)) pair_square)
  | object fields => exact silent (Hidden.group (level_intercalate (Json.level_fields fields)) pair_curly)

theorem Json.firm (value : Json) : Firm value.chars := by
  cases value with
  | null => exact firm_solid (by decide) (by decide)
  | bool value => cases value <;> exact firm_solid (by decide) (by decide)
  | number value =>
    refine firm_solid value.present fun c member => ?_
    have bounds := value.written c member
    simp only [isNumberChar, Bool.or_eq_true, List.mem_cons, decide_eq_true_eq, List.not_mem_nil, or_false] at bounds
    rcases bounds with digit | rfl | rfl | rfl | rfl | rfl
    · exact solid_digit digit
    all_goals decide
  | string value => exact firm_wrapped _ (by decide) (by decide)
  | array items => exact firm_wrapped _ (by decide) (by decide)
  | object fields => exact firm_wrapped _ (by decide) (by decide)

theorem Json.trim_text (value : Json) : trim value.text = value.text := by
  rw [trim, Json.text, String.toList_ofList]
  exact congrArg String.ofList value.firm.trim

end Scanning

namespace Sql

section Lists

def Scan.state (scan : Scan) : State := ⟨scan.inString, scan.escaped, scan.depth⟩

/-- One character of the splitter in the terms of its rules. -/
theorem splitChar_eq {scan : Scan} (settled : scan.state.Settled) (c : Char) : splitChar ',' scan c =
    if scan.state.top listRules c && c == ',' then { scan with done := scan.current :: scan.done, current := [] }
    else
      let next := scan.state.next listRules c
      ⟨scan.done, scan.current ++ [c], next.depth, next.quote, next.escaped⟩ := by
  obtain ⟨done, current, depth, inString, escaped⟩ := scan
  cases inString with
  | some quote =>
    simp only [splitChar, Scan.state, State.next, State.top, listRules, Option.isNone_some, Bool.false_and,
      Bool.false_eq_true, if_false, Option.some.injEq, eq_comm]
    split_ifs <;> rfl
  | none =>
    obtain rfl : escaped = false := settled rfl
    have quotes : (c ∈ listRules.quotes) = (c = '"' ∨ c = '\'') := by simp [listRules]
    have opens : (c ∈ listRules.opens) = (c = '(' ∨ c = '[' ∨ c = '{') := by simp [listRules]
    have closes : (c ∈ listRules.closes) = (c = ')' ∨ c = ']' ∨ c = '}') := by simp [listRules]
    by_cases comma : c = ','
    · subst comma
      by_cases surface : depth = 0
      · subst surface
        rfl
      · simp [splitChar, Scan.state, State.next, State.top, listRules, surface]
    · simp only [splitChar, Scan.state, State.next, quotes, opens, closes, comma, false_and, if_false,
        beq_eq_false_iff_ne.mpr comma, Bool.and_false, Bool.false_eq_true]
      split_ifs <;> rfl

/-- The splitter is the scan of its rules: `done` and `current` are what was cut so far. -/
theorem scan_pieces {scan : Scan} (settled : scan.state.Settled) (rest : List Char) :
    ((rest.foldl (splitChar ',') scan).current :: (rest.foldl (splitChar ',') scan).done).reverse =
      scan.done.reverse ++ (pieces listRules ',' scan.state rest).modifyHead (scan.current ++ ·) := by
  induction rest generalizing scan with
  | nil => simp [pieces]
  | cons c rest ih =>
    rw [List.foldl_cons, splitChar_eq settled, pieces]
    by_cases cuts : (scan.state.top listRules c && c == ',') = true
    · have later := @ih { scan with done := scan.current :: scan.done, current := [] } settled
      rw [if_pos cuts, if_pos cuts, later]
      cases shape : pieces listRules ',' scan.state rest with
      | nil => exact absurd shape (pieces_ne_nil ',' _ _)
      | cons first others =>
        have same : pieces listRules ',' ⟨scan.inString, scan.escaped, scan.depth⟩ rest = first :: others := shape
        simp [Scan.state, same]
    · have stays : (scan.state.next listRules c).Settled := settled.next c
      have later := @ih ⟨scan.done, scan.current ++ [c], (scan.state.next listRules c).depth,
        (scan.state.next listRules c).quote, (scan.state.next listRules c).escaped⟩ stays
      rw [if_neg cuts, if_neg cuts, later, List.modifyHead_modifyHead]
      simp [Scan.state, Function.comp_def]

/-- A value of the list cut out, trimmed and put into a plan again. -/
theorem splitTopLevel_items {first : Json} {rest : List Json} :
    splitTopLevel (.ofList ([','].intercalate (Json.itemChars (first :: rest)))) ',' =
      (first :: rest).map Json.text := by
  have level := Json.level_items (first :: rest)
  have free : ∀ part ∈ Json.itemChars (first :: rest), ',' ∉ topChars listRules start part := by
    rw [Json.itemChars_eq]
    intro part member
    obtain ⟨item, _, rfl⟩ := List.mem_map.mp member
    exact item.no_comma
  have cut := pieces_intercalate (by decide : listRules.plain ',' = true) (apart_of_level level free)
  have scanned := @scan_pieces ⟨[], [], 0, none, false⟩ settled_start
    ([','].intercalate (Json.itemChars (first :: rest)))
  have state : Scan.state ⟨[], [], 0, none, false⟩ = start := rfl
  rw [state, Json.itemChars, cut] at scanned
  unfold splitTopLevel
  simp only [String.toList_ofList, Json.itemChars]
  rw [scanned]
  simp only [List.reverse_nil, List.nil_append, List.modifyHead_cons, Json.itemChars_eq, List.map_cons, List.map_map]
  exact congrArg₂ List.cons first.trim_text (List.map_congr_left fun item _ => item.trim_text)

/-- The text of a value starts as a list does only if it is an array. -/
theorem Json.head_array {value : Json} (other : ∀ items, value ≠ .array items) :
    ∃ c rest, value.chars = c :: rest ∧ c ≠ '[' ∧ c ≠ 'v' := by
  cases value with
  | null => exact ⟨'n', "ull".toList, rfl, by decide, by decide⟩
  | bool value =>
    cases value
    · exact ⟨'f', "alse".toList, rfl, by decide, by decide⟩
    · exact ⟨'t', "rue".toList, rfl, by decide, by decide⟩
  | number value =>
    obtain ⟨c, rest, shape⟩ := List.exists_cons_of_ne_nil value.present
    have written : isNumberChar c = true := value.written c (by rw [shape]; exact List.mem_cons_self)
    refine ⟨c, rest, shape, ?_, ?_⟩ <;> (rintro rfl; exact absurd written (by decide))
  | string value => exact ⟨'"', _, rfl, by decide, by decide⟩
  | array items => exact absurd rfl (other items)
  | object fields => exact ⟨'{', _, rfl, by decide, by decide⟩

/-- No other value is a list. -/
theorem filterListValues_other {value : Json} (other : ∀ items, value ≠ .array items) :
    filterListValues ⟨value.text⟩ = none := by
  obtain ⟨c, rest, shape, square, letter⟩ := Json.head_array other
  have chars : value.text.toList = c :: rest := by rw [Json.text, String.toList_ofList, shape]
  have vec : stripPrefix value.text "vec![" = none := stripPrefix_other chars rfl letter
  have bare : stripPrefix value.text "[" = none := stripPrefix_other chars rfl square
  simp [filterListValues, value.trim_text, vec, bare]

/-- The values of a list filter are the items of its array. -/
theorem filterListValues_array (items : List Json) :
    filterListValues ⟨(Json.array items).text⟩ = some (items.map fun item => ⟨item.text⟩) := by
  have shape : (Json.array items).text = "[" ++ (.ofList ([','].intercalate (Json.itemChars items)) ++ "]") := by
    apply String.toList_injective
    simp [Json.text, Json.chars]
  have vec : stripPrefix (Json.array items).text "vec![" = none := by
    have chars : (Json.array items).text.toList = '[' :: ([','].intercalate (Json.itemChars items) ++ [']']) := by
      rw [Json.text, String.toList_ofList, Json.chars]
    exact stripPrefix_other chars rfl (by decide)
  have inner : (stripPrefix (Json.array items).text "[").bind (stripSuffix · "]") =
      some (.ofList ([','].intercalate (Json.itemChars items))) := by
    rw [shape, stripPrefix_append, Option.bind_some, stripSuffix_append]
  simp only [filterListValues, Json.trim_text, vec, Option.bind_none, inner]
  cases items with
  | nil => rfl
  | cons first rest =>
    obtain ⟨c, more, head, solid⟩ := first.firm.head
    have present : (trim (.ofList ([','].intercalate (Json.itemChars (first :: rest))))).isEmpty = false := by
      have member : c ∈ [','].intercalate (Json.itemChars (first :: rest)) := by
        apply (sublist_intercalate [','] (List.mem_cons_self : first.chars ∈ Json.itemChars (first :: rest))).subset
        rw [head]
        exact List.mem_cons_self
      rcases mem_trim (.ofList _) (by rwa [String.toList_ofList]) with blank | kept
      · rw [solid] at blank
        cases blank
      · apply Bool.eq_false_iff.mpr
        intro none
        rw [String.isEmpty_iff.mp none] at kept
        cases kept
    rw [present, if_neg Bool.false_ne_true, splitTopLevel_items, List.map_map]
    exact congrArg some (List.map_congr_left fun item _ => congrArg AxRustExpr.mk item.trim_text)

end Lists

section Values

open Template

/-- The values in the placeholders of a filter. -/
def AxQueryFilterPlan.values (filter : AxQueryFilterPlan) : List AxRustExpr :=
  match filter.op with
  | .eq | .ne => [filter.value]
  | .in | .notIn => (filterListValues filter.value).getD []
  | .isNull | .isNotNull => []

theorem holes_list {field : Layout} (static : holes field = []) (keyword : String) (values : List AxRustExpr) :
    holes (listLayout field keyword values) = values := by
  have each : (values.map fun value => ([.hole value] : Layout)).flatMap holes = values := by
    induction values with
    | nil => rfl
    | cons value rest ih => rw [List.map_cons, List.flatMap_cons, ih]; rfl
  simp only [listLayout, holes_append, static, holes_joinPieces, each]
  simp [holes]

theorem holes_filter {context : AxSqlFilterContext} {filter : AxQueryFilterPlan} {field : Layout}
    (static : holes field = []) : holes (filterLayout context filter field) = filter.values := by
  unfold filterLayout AxQueryFilterPlan.values
  cases filter.op with
  | eq | ne => simp [static, holes]
  | «in» =>
    cases filterListValues filter.value with
    | none => rfl
    | some values =>
      cases values with
      | nil => rfl
      | cons value rest => exact holes_list static "in" (value :: rest)
  | notIn =>
    cases filterListValues filter.value with
    | none => rfl
    | some values =>
      cases values with
      | nil => rfl
      | cons value rest => exact holes_list static "not in" (value :: rest)
  | isNull | isNotNull => simp [static, holes]

theorem holes_where (clauses : List Layout) : holes (whereLayout clauses) = clauses.flatMap holes := by
  unfold whereLayout
  cases clauses with
  | nil => rfl
  | cons clause rest =>
    rw [List.isEmpty_cons, if_neg Bool.false_ne_true, holes]
    exact holes_joinPieces " and " (clause :: rest)

theorem holes_clauses {context : AxSqlFilterContext} (field : AxQueryFilterPlan → Layout)
    (static : ∀ filter, holes (field filter) = []) (filters : List AxQueryFilterPlan) :
    (filters.map fun filter => filterLayout context filter (field filter)).flatMap holes =
      filters.flatMap AxQueryFilterPlan.values := by
  rw [List.flatMap_map]
  exact List.flatMap_congr fun filter _ => holes_filter (static filter)

theorem holes_assigned (names : AxAssignmentPlan → Layout) (static : ∀ field, holes (names field) = [])
    (fields : List AxAssignmentPlan) :
    (fields.map fun field => names field ++ [.hole field.value]).flatMap holes = fields.map AxAssignmentPlan.value := by
  induction fields with
  | nil => rfl
  | cons field rest ih =>
    rw [List.map_cons, List.flatMap_cons, ih, holes_append, static]
    rfl

/-- The values a statement binds: what is assigned, then what is compared. -/
def Statement.values : Statement → List AxRustExpr
  | .query plan => plan.filters.flatMap AxQueryFilterPlan.values
  | .insert _ fields => fields.map AxAssignmentPlan.value
  | .update _ fields filters => fields.map AxAssignmentPlan.value ++ filters.flatMap AxQueryFilterPlan.values
  | .delete _ filters => filters.flatMap AxQueryFilterPlan.values

theorem Statement.holes_layout (statement : Statement) : holes statement.layout = statement.values := by
  have mutation (filters : List AxQueryFilterPlan) :
      (mutationWhere filters).flatMap holes = filters.flatMap AxQueryFilterPlan.values :=
    holes_clauses (fun filter => [.name filter.field]) (fun _ => rfl) filters
  cases statement with
  | query plan =>
    have filters := @holes_clauses .query
      (fun filter => fieldLayout filter.field (sourceName plan.source) (!plan.joins.isEmpty))
      (fun _ => holes_fieldLayout _ _ _) plan.filters
    simp only [layout, queryLayout, holes_append, holes_selectLayout, holes_joins, holes_where, holes_orders,
      holes_numberLayout, filters, List.nil_append, List.append_nil, Statement.values]
  | insert collection fields =>
    have columns : (fields.map fun field => ([.name field.name] : Layout)).flatMap holes = [] := by
      simp [holes]
    have values := holes_assigned (fun _ => []) (fun _ => rfl) fields
    simp only [List.nil_append] at values
    simp only [layout, insertLayout, holes_append, holes_joinPieces, columns, values]
    simp [holes, Statement.values]
  | update collection fields filters =>
    have values := holes_assigned (fun field => [.name field.name, .text " = "]) (fun _ => rfl) fields
    simp only [List.cons_append, List.nil_append] at values
    simp only [layout, updateLayout, holes_append, holes_joinPieces, values, holes_where, mutation]
    simp [holes, Statement.values]
  | delete collection filters =>
    simp only [layout, deleteLayout, holes_append, holes_joinPieces, mutation]
    simp [holes, Statement.values]

end Values

end Sql

end Axonyx.Core
