import Axonyx.Core.DomainCalls

/-! The calls of declared helpers in a Rust expression, what they should become, and when the
rewriting of their text agrees. -/
namespace Axonyx.Core.Rust

open Axonyx.Edits
open Axonyx.Core.Backend

variable {Code Step : Type}

section Meaning

def cloneName : Ident := ⟨⟨"clone", by decide, by decide⟩, by decide⟩

/-- An argument in the passing mode of its parameter: a record is borrowed, a plain value is
copied, anything else is cloned. -/
def passExpr (records : List String) (field : AxFieldPlan Code) (arg : Expr) : Expr :=
  if field.rustTy ∈ records then .unary .ref (.paren arg)
  else if field.rustTy ∈ ["bool", "i32", "i64", "u32", "u64", "f32", "f64"] then arg
  else .method (.paren arg) cloneName [] [] false

variable (functions : List (AxFunctionPlan Code Step)) (records : List String)

/-- The declared function that is called by its name. -/
def Expr.called : Expr → Option (AxFunctionPlan Code Step)
  | .ident name => functions.find? fun function => name.text = function.name
  | _ => none

/-- A call of a declared function; it is hidden if it begins right behind the dots of a range. -/
structure Call (Code Step : Type) where
  function : AxFunctionPlan Code Step
  args : List Expr
  comma : Bool
  hidden : Bool

mutual

/-- The calls of declared functions in an expression. -/
def Expr.calls (shaded : Bool) : Expr → List (Call Code Step)
  | .ident _ | .path _ _ _ _ | .literal _ => []
  | .entry _ value => value.calls false
  | .field object _ => object.calls shaded
  | .index object place => object.calls shaded ++ place.calls false
  | .call callee args comma =>
    match callee.called functions with
    | some function => ⟨function, args, comma, shaded⟩ :: itemCalls args
    | none => callee.calls shaded ++ itemCalls args
  | .method object _ _ args _ => object.calls shaded ++ itemCalls args
  | .macroCall _ _ _ args _ => itemCalls args
  | .unary op operand => operand.calls (op == .rangeTo)
  | .binary op left right => left.calls shaded ++ right.calls (op == .range)
  | .question operand => operand.calls shaded
  | .list _ items _ => itemCalls items

def itemCalls : List Expr → List (Call Code Step)
  | [] => []
  | item :: items => item.calls false ++ itemCalls items

end

mutual

/-- The expression with every call of a declared function handing on its error. -/
def Expr.applied : Expr → Expr
  | .ident name => .ident name
  | .path first second rest types => .path first second rest types
  | .literal value => .literal value
  | .entry key value => .entry key value.applied
  | .field object name => .field object.applied name
  | .index object place => .index object.applied place.applied
  | .call callee args comma =>
    match callee.called functions with
    | some function =>
      .question (.call callee (List.zipWith (passExpr records) function.input (appliedItems args)) false)
    | none => .call callee.applied (appliedItems args) comma
  | .method object name types args comma => .method object.applied name types (appliedItems args) comma
  | .macroCall first rest delimiter args comma => .macroCall first rest delimiter (appliedItems args) comma
  | .unary op operand => .unary op operand.applied
  | .binary op left right => .binary op left.applied right.applied
  | .question operand => .question operand.applied
  | .list delimiter items comma => .list delimiter (appliedItems items) comma

def appliedItems : List Expr → List Expr
  | [] => []
  | item :: items => item.applied :: appliedItems items

end

/-- Some call of a declared function has the wrong number of arguments. -/
def Expr.misapplied (expr : Expr) : Bool :=
  (expr.calls functions false).any fun call => call.args.length ≠ call.function.input.length

/-- The commas of an expression outside of all groups: those between the types of a path or a method. -/
def Expr.commas (expr : Expr) : Nat := expr.nodes.countP Node.isComma

/-- The number of arguments if every comma stands between two of them. -/
def Call.counted (call : Call Code Step) : Nat := call.args.length + (call.args.map Expr.commas).sum

/-- The commas give the wrong number of arguments, where the call is not hidden. -/
def Call.refused (call : Call Code Step) : Bool := !call.hidden && call.counted ≠ call.function.input.length

/-- The call is not hidden, and its commas give the number of its arguments. -/
def Call.plain (call : Call Code Step) : Bool := !call.hidden && call.counted = call.args.length

/-- A wrong call is seen, or there is none and all calls are plain. -/
def Expr.wellRead (expr : Expr) : Bool :=
  if expr.misapplied functions then (expr.calls functions false).any Call.refused
  else (expr.calls functions false).all Call.plain

/-- What an expression should become: nothing if some call has the wrong number of arguments. -/
def Expr.rewritten (expr : Expr) : Option (List Char) :=
  if expr.misapplied functions then none else some (expr.applied functions records).print

end Meaning

section Shapes

variable {functions : List (AxFunctionPlan Code Step)} {α : Type} {reading : Reading Code Step α}

def Node.isGroup : Node → Bool
  | .group _ _ _ => true
  | _ => false

theorem startsGroup_flat {nodes : List Node} (flat : nodes.all (!·.isGroup) = true) : startsGroup nodes = false := by
  match nodes with
  | [] | .word _ _ :: _ | .sign _ _ :: _ | .literal _ _ :: _ => rfl
  | .group _ _ _ :: _ => cases flat

theorem walk_flat {nodes : List Node} (flat : nodes.all (!·.isGroup) = true) (before : List Node) :
    walk functions reading before nodes = nodes.foldr (fun node => reading.join (reading.leaf node)) reading.nothing := by
  induction nodes generalizing before with
  | nil => exact walk_nil before
  | cons node rest ih =>
    rw [List.all_cons, Bool.and_eq_true] at flat
    rw [walk_cons before (.inr (startsGroup_flat flat.2)), ih flat.2]
    cases node with
    | group gap delimiter inner => cases flat.1
    | _ => rfl

theorem text_flat {records : List String} {rewrite : List Node → Option (List Char)} {nodes : List Node}
    (flat : nodes.all (!·.isGroup) = true) (before : List Node) :
    walk functions (textReading records rewrite) before nodes = some (printNodes nodes) := by
  rw [walk_flat flat]
  induction nodes with
  | nil => rfl
  | cons node rest ih =>
    rw [List.all_cons, Bool.and_eq_true] at flat
    rw [List.foldr_cons, ih flat.2]
    rfl

theorem sites_flat {nodes : List Node} (flat : nodes.all (!·.isGroup) = true) (before : List Node) :
    walk functions siteReading before nodes = [] := by
  rw [walk_flat flat]
  induction nodes with
  | nil => rfl
  | cons node rest ih =>
    rw [List.all_cons, Bool.and_eq_true] at flat
    rw [List.foldr_cons, ih flat.2]
    rfl

theorem flat_path (names : List Ident) : (pathNodes names).all (!·.isGroup) = true := by
  induction names with
  | nil => rfl
  | cons name rest ih =>
    rw [pathNodes, List.flatMap_cons, List.all_append]
    exact ih

theorem flat_turbofish (types : List TypeArg) : (turbofish types).all (!·.isGroup) = true := by
  rcases turbofish_quiet types with none | ⟨front, shape, quiet⟩
  · rw [none]
    rfl
  · rw [shape, List.all_append]
    have words (nodes : List Node) (quiet : nodes.all Node.quiet = true) : nodes.all (!·.isGroup) = true := by
      apply List.all_eq_true.mpr
      intro node member
      have known := List.all_eq_true.mp quiet node member
      cases node with
      | group gap delimiter inner => cases known
      | _ => rfl
    rw [words front quiet]
    rfl

theorem shades_closed {nodes : List Node} (closed : Closed nodes) (before : List Node) :
    shades (nodes.reverse ++ before) = false := by
  obtain ⟨front, last, rfl, known⟩ := closed
  rw [List.reverse_append, List.append_assoc, List.reverse_singleton, List.singleton_append]
  generalize front.reverse ++ before = earlier
  cases last with
  | sign gap mark =>
    cases mark with
    | dot | colon | comma => cases known
    | _ => cases earlier <;> rfl
  | _ => cases earlier <;> rfl

theorem shades_operator (op : UnaryOp) (before : List Node) :
    shades (op.nodes.reverse ++ before) = (op == .rangeTo) := by
  cases op <;> cases before <;> rfl

theorem shades_sign (op : BinaryOp) (before : List Node) : shades (op.nodes.reverse ++ before) = (op == .range) := by
  cases op <;> cases before <;> rfl

theorem shades_dot (before : List Node) : shades (.sign false .dot :: before) = true := by
  cases before <;> rfl

/-- No function is named at the end of the nodes. -/
def Unnamed (functions : List (AxFunctionPlan Code Step)) (before nodes : List Node) : Prop :=
  ∃ front last, nodes = front ++ [last] ∧ declared functions (front.reverse ++ before) last = none

theorem unnamed_last (before front : List Node) {last : Node}
    (none : ∀ before, declared functions before last = none) : Unnamed functions before (front ++ [last]) :=
  ⟨front, last, rfl, none _⟩

theorem unnamed_word (before front : List Node) {last : Node} (name : Word)
    (shaded : ∀ before, shades (last :: front.reverse ++ before) = true) :
    Unnamed functions before (front ++ [last, .word false name]) := by
  refine ⟨front ++ [last], .word false name, by simp, ?_⟩
  have hidden := shaded before
  rw [declared, List.reverse_append, List.reverse_singleton, List.singleton_append, if_pos hidden]

theorem unnamed_path (before : List Node) (front : List Node) (name : Ident) (rest : List Ident) :
    Unnamed functions before (front ++ pathNodes (name :: rest)) := by
  induction rest generalizing front name with
  | nil =>
    have shape : front ++ pathNodes [name] = (front ++ [.sign false .colon]) ++ [.sign false .colon, .word false name.toWord] := by
      simp [pathNodes]
    rw [shape]
    exact unnamed_word before _ name.toWord fun _ => by simp [shades, isMemberPlace, Node.token, Sign.char, isDot, isColon]
  | cons next rest ih =>
    have later := ih (front ++ [.sign false .colon, .sign false .colon, .word false name.toWord]) next
    simpa [pathNodes] using later

/-- What is called by another name than a declared one. -/
theorem unnamed_callee {callee : Expr} (known : callee.called functions = none) (other : callee.isOperation = false)
    (before : List Node) : Unnamed functions before callee.nodes := by
  match callee with
  | .ident name =>
    refine ⟨[], .word false name.toWord, rfl, ?_⟩
    rw [declared]
    split
    · rfl
    · exact known
  | .path first second rest types =>
    cases types with
    | nil =>
      have path := @unnamed_path _ _ functions before [.word false first.toWord] second rest
      rwa [Expr.nodes, turbofish, if_pos List.isEmpty_nil, List.append_nil]
    | cons type types =>
      have shape : (Expr.path first second rest (type :: types)).nodes = (.word false first.toWord ::
          (pathNodes (second :: rest) ++ (.sign false .colon :: .sign false .colon :: .sign false .less ::
            typeNodes (type :: types) false))) ++ [.sign false .greater] := by
        simp [turbofish]
      rw [shape]
      exact unnamed_last before _ fun _ => rfl
  | .literal value => exact unnamed_last before [] fun _ => rfl
  | .field object name =>
    exact unnamed_word before object.nodes name.toWord fun _ => shades_dot _
  | .index object place => exact unnamed_last before object.nodes fun _ => rfl
  | .call inner args comma => exact unnamed_last before inner.nodes fun _ => rfl
  | .method object name types args comma =>
    have shape : (Expr.method object name types args comma).nodes =
        (object.nodes ++ (memberNodes name ++ turbofish types)) ++ [.group false .parenthesis (itemNodes args comma)] := by
      simp
    rw [shape]
    exact unnamed_last before _ fun _ => rfl
  | .macroCall first rest delimiter args comma =>
    have shape : (Expr.macroCall first rest delimiter args comma).nodes =
        (.word false first.toWord :: (pathNodes rest ++ [.sign false .bang])) ++ [.group false delimiter (itemNodes args comma)] := by
      simp
    rw [shape]
    exact unnamed_last before _ fun _ => rfl
  | .question operand => exact unnamed_last before operand.nodes fun _ => rfl
  | .list delimiter items comma => exact unnamed_last before [] fun _ => rfl

/-- What stands behind nodes that name no function. -/
theorem walk_after {before nodes : List Node} (unnamed : Unnamed functions before nodes) (more : List Node) :
    walk functions reading before (nodes ++ more) =
      reading.join (walk functions reading before nodes) (walk functions reading (nodes.reverse ++ before) more) := by
  obtain ⟨front, last, rfl, none⟩ := unnamed
  apply walk_append before (front ++ [last])
  intro other final same
  obtain ⟨rfl, ends⟩ := List.append_inj' same rfl
  obtain ⟨rfl, _⟩ := List.cons.inj ends
  exact .inl none

theorem walk_group (before : List Node) (delimiter : Delimiter) (inner : List Node) :
    walk functions reading before [.group false delimiter inner] =
      reading.wrap false delimiter (walk functions reading [] inner) := by
  rw [walk_cons before (.inr rfl), walk_nil, reading.join_nothing]
  rfl

theorem walk_operator (op : BinaryOp) (before more : List Node) :
    walk functions reading before (op.nodes ++ more) =
      reading.join (walk functions reading before op.nodes) (walk functions reading (op.nodes.reverse ++ before) more) := by
  apply walk_append before op.nodes
  intro front last same
  have member : last ∈ op.nodes := by rw [same]; simp
  rcases List.mem_cons.mp member with rfl | behind
  · exact .inl rfl
  · obtain ⟨mark, _, rfl⟩ := List.mem_map.mp behind
    exact .inl rfl

/-- The functions have names that a call can use. -/
def Named (functions : List (AxFunctionPlan Code Step)) : Prop :=
  ∀ function ∈ functions, ∃ name : Ident, name.text = function.name

theorem unnamed_operator (named : Named functions) (op : UnaryOp) (before : List Node) :
    Unnamed functions before op.nodes := by
  cases op with
  | refMut =>
    refine ⟨[.sign false .ampersand], .word false mutWord, rfl, ?_⟩
    rw [declared]
    split
    · rfl
    · apply List.find?_eq_none.mpr
      intro function member same
      obtain ⟨name, text⟩ := named function member
      exact name.noKeyword (text.trans (of_decide_eq_true same).symm)
  | rangeTo => exact unnamed_last before [.sign false .dot] fun _ => rfl
  | _ => exact unnamed_last before [] fun _ => rfl

theorem unnamed_method (before : List Node) (name : Ident) (types : List TypeArg) :
    Unnamed functions before (memberNodes name ++ turbofish types) := by
  cases types with
  | nil =>
    rw [turbofish, if_pos List.isEmpty_nil, List.append_nil]
    exact unnamed_word before [] name.toWord fun _ => shades_dot _
  | cons type types =>
    have shape : memberNodes name ++ turbofish (type :: types) = (memberNodes name ++ (.sign false .colon ::
        .sign false .colon :: .sign false .less :: typeNodes (type :: types) false)) ++ [.sign false .greater] := by
      simp [turbofish]
    rw [shape]
    exact unnamed_last before _ fun _ => rfl

theorem flat_method (name : Ident) (types : List TypeArg) :
    (memberNodes name ++ turbofish types).all (!·.isGroup) = true := by
  rw [List.all_append, flat_turbofish]
  rfl

theorem startsGroup_separator (rest : List Expr) (comma : Bool) :
    startsGroup (separatorNodes rest comma ++ spaced true (itemNodes rest comma)) = false := by
  cases rest <;> cases comma <;> rfl

theorem separator_cases (rest : List Expr) (comma : Bool) :
    rest = [] ∧ separatorNodes rest comma = [] ∨ separatorNodes rest comma = [.sign false .comma] := by
  cases rest with
  | nil =>
    cases comma with
    | false => exact .inl ⟨rfl, rfl⟩
    | true => exact .inr rfl
  | cons item rest => exact .inr rfl

/-- The name of a macro. -/
def macroHead (first : Ident) (rest : List Ident) : List Node := .word false first.toWord :: pathNodes rest

theorem flat_head (first : Ident) (rest : List Ident) :
    (macroHead first rest ++ [Node.sign false .bang]).all (!·.isGroup) = true := by
  rw [macroHead, List.all_append, List.all_cons, flat_path]
  rfl

theorem called_ident {callee : Expr} {function : AxFunctionPlan Code Step}
    (known : callee.called functions = some function) : ∃ name, callee = .ident name := by
  cases callee with
  | ident name => exact ⟨name, rfl⟩
  | _ => cases known

end Shapes

section Sites

variable {functions : List (AxFunctionPlan Code Step)}

/-- The calls that are not hidden, with the nodes in their parentheses. -/
def seen (calls : List (Call Code Step)) : List (AxFunctionPlan Code Step × List Node) :=
  (calls.filter fun call => !call.hidden).map fun call => (call.function, itemNodes call.args call.comma)

theorem seen_append (a b : List (Call Code Step)) : seen (a ++ b) = seen a ++ seen b := by
  simp [seen]

mutual

/-- The code sees the calls of an expression that are not hidden. -/
theorem walk_sites (named : Named functions) (expr : Expr) (valid : expr.Valid) (before : List Node) :
    walk functions siteReading before expr.nodes = seen (expr.calls functions (shades before)) := by
  match expr with
  | .ident _ | .literal _ => exact sites_flat rfl before
  | .path first second rest types =>
    have flat : (Expr.path first second rest types).nodes.all (!·.isGroup) = true := by
      rw [Expr.nodes, List.all_cons, List.all_append, flat_path, flat_turbofish]
      rfl
    exact sites_flat flat before
  | .entry key value =>
    rw [Expr.nodes, walk_cons before (.inr rfl), walk_cons _ (.inl rfl), walk_spaced, walk_sites named value valid]
    rfl
  | .field object name =>
    rw [Expr.nodes, walk_append before object.nodes fun _ _ _ => .inr rfl, walk_sites named object valid.2 before,
      sites_flat rfl]
    exact List.append_nil _
  | .index object place =>
    rw [Expr.nodes, walk_append before object.nodes fun _ _ _ => .inr rfl, walk_group,
      walk_sites named object valid.2.1 before, walk_sites named place valid.2.2 [], Expr.calls, seen_append]
    rfl
  | .call callee args comma =>
    have inside := walk_items named args comma valid.2.2.2 [] rfl
    cases known : callee.called functions with
    | some function =>
      obtain ⟨name, rfl⟩ := called_ident known
      rw [Expr.nodes, Expr.nodes, List.singleton_append, Expr.calls, known]
      cases off : shades before with
      | false =>
        have called : declared functions before (.word false name.toWord) = some function := by
          rw [declared, off]
          exact known
        rw [walk_call called, inside, walk_nil]
        simp [seen, siteReading]
      | true =>
        have hidden : declared functions before (.word false name.toWord) = none := by
          rw [declared, off]
          rfl
        rw [walk_cons before (.inl hidden), walk_group, inside]
        simp [seen, siteReading, walkNode]
    | none =>
      rw [Expr.nodes, walk_after (unnamed_callee known valid.1 before), walk_group, inside,
        walk_sites named callee valid.2.2.1 before, Expr.calls, known, seen_append]
      rfl
  | .method object name types args comma =>
    rw [Expr.nodes, walk_append before object.nodes fun _ _ _ => .inr rfl, walk_sites named object valid.2.1 before,
      ← List.append_assoc, walk_after (unnamed_method _ name types), sites_flat (flat_method name types), walk_group,
      walk_items named args comma valid.2.2 [] rfl, Expr.calls, seen_append]
    rfl
  | .macroCall first rest delimiter args comma =>
    have shape : (Expr.macroCall first rest delimiter args comma).nodes =
        (macroHead first rest ++ [.sign false .bang]) ++ [.group false delimiter (itemNodes args comma)] := by
      simp [macroHead]
    rw [shape, walk_after (unnamed_last before _ fun _ => rfl), sites_flat (flat_head first rest), walk_group,
      walk_items named args comma valid [] rfl]
    rfl
  | .unary op operand =>
    rw [Expr.nodes, walk_after (unnamed_operator named op before), walk_spaced, walk_sites named operand valid,
      shades_operator, sites_flat (by cases op <;> rfl)]
    rfl
  | .binary op left right =>
    rw [Expr.nodes, walk_append before left.nodes fun _ _ _ => .inr rfl, walk_operator, walk_spaced,
      walk_sites named left valid.1 before, walk_sites named right valid.2, shades_sign, sites_flat (by cases op <;> rfl),
      Expr.calls, seen_append]
    rfl
  | .question operand =>
    rw [Expr.nodes, walk_append before operand.nodes fun _ _ _ => .inr rfl, walk_sites named operand valid.2 before,
      sites_flat rfl]
    exact List.append_nil _
  | .list delimiter items comma =>
    rw [Expr.nodes, walk_group, walk_items named items comma valid [] rfl]
    rfl

theorem walk_items (named : Named functions) (items : List Expr) (comma : Bool) (valid : ValidItems items)
    (before : List Node) (off : shades before = false) :
    walk functions siteReading before (itemNodes items comma) = seen (itemCalls functions items) := by
  match items with
  | [] => exact walk_nil before
  | item :: rest =>
    rw [itemNodes, walk_append before item.nodes fun _ _ _ => .inr (startsGroup_separator rest comma),
      walk_sites named item valid.1 before, off, itemCalls, seen_append]
    refine congrArg (seen (item.calls functions false) ++ ·) ?_
    rcases separator_cases rest comma with ⟨rfl, none⟩ | some
    · rw [none]
      exact walk_nil _
    · have clear := shades_comma false (item.nodes.reverse ++ before) []
      have later := walk_items named rest comma valid.2 (.sign false .comma :: (item.nodes.reverse ++ before)) clear
      rw [some, List.singleton_append, walk_cons _ (.inl rfl), walk_spaced, later]
      rfl

end

end Sites

section Counting

theorem countP_spaced (gap : Bool) (nodes : List Node) :
    (spaced gap nodes).countP Node.isComma = nodes.countP Node.isComma := by
  cases nodes with
  | nil => rfl
  | cons node rest =>
    have same : (node.withGap gap).isComma = node.isComma := by
      cases node with
      | sign _ mark => cases mark <;> rfl
      | _ => rfl
    rw [spaced, List.countP_cons, List.countP_cons, same]

theorem argumentNodes_comma (held : List Node) (gap : Bool) (rest : List Node) :
    argumentNodes held (.sign gap .comma :: rest) = spaced false held :: argumentNodes [] rest := rfl

theorem count_comma (held front rest : List Node) (gap : Bool) :
    (argumentNodes held (front ++ .sign gap .comma :: rest)).length =
      front.countP Node.isComma + 1 + (argumentNodes [] rest).length := by
  induction front generalizing held with
  | nil =>
    rw [List.nil_append, argumentNodes_comma, List.length_cons, List.countP_nil]
    omega
  | cons node front ih =>
    rw [List.cons_append, argumentNodes, List.countP_cons]
    split
    · rw [List.length_cons, ih]
      omega
    · rw [ih]

theorem count_last (held front : List Node) {last : Node} (other : last.isComma = false) :
    (argumentNodes held (front ++ [last])).length = front.countP Node.isComma + 1 := by
  induction front generalizing held with
  | nil => simp [argumentNodes, other]
  | cons node front ih =>
    rw [List.cons_append, argumentNodes, List.countP_cons]
    split
    · rw [List.length_cons, ih]
    · rw [ih]

theorem closes_other {last : Node} (known : last.closes = true) : last.isComma = false := by
  cases last with
  | sign gap mark =>
    cases mark with
    | comma => cases known
    | _ => rfl
  | _ => rfl

theorem spaced_append {nodes : List Node} (close : Close nodes) (gap : Bool) (more : List Node) :
    spaced gap (nodes ++ more) = spaced gap nodes ++ more := by
  obtain ⟨node, rest, rfl, _⟩ := close
  rfl

/-- The commas between the arguments and those in them. -/
theorem count_items (args : List Expr) (comma gap : Bool) :
    (argumentNodes [] (spaced gap (itemNodes args comma))).length = args.length + (args.map Expr.commas).sum := by
  induction args generalizing gap with
  | nil => rfl
  | cons item rest ih =>
    rw [itemNodes, spaced_append (nodes_close item), List.length_cons, List.map_cons, List.sum_cons, Expr.commas,
      ← countP_spaced gap item.nodes]
    rcases separator_cases rest comma with ⟨rfl, none⟩ | some
    · obtain ⟨front, last, shape, known⟩ := closed_spaced gap (closed_nodes item)
      have other := closes_other known
      rw [none, itemNodes, spaced, List.append_nil, List.append_nil, shape, count_last [] front other, List.countP_append,
        List.countP_cons, other]
      simp
      omega
    · rw [some, List.singleton_append, count_comma, ih true]
      omega

theorem argumentNodes_skip {front : List Node} (plain : front.countP Node.isComma = 0) (held rest : List Node) :
    argumentNodes held (front ++ rest) = argumentNodes (held ++ front) rest := by
  induction front generalizing held with
  | nil => rw [List.append_nil]; rfl
  | cons node front ih =>
    rw [List.countP_cons] at plain
    have other : node.isComma = false := by
      cases known : node.isComma with
      | false => rfl
      | true => simp [known] at plain
    rw [List.cons_append, argumentNodes, other, if_neg Bool.false_ne_true, ih (by omega), List.append_assoc]
    rfl

theorem spaced_spaced {nodes : List Node} (close : Close nodes) (gap : Bool) : spaced false (spaced gap nodes) = nodes := by
  obtain ⟨node, rest, rfl, known⟩ := close
  cases node <;> simp_all [spaced, Node.withGap, Node.gap]

/-- Without commas in them, the arguments are what the commas cut. -/
theorem argument_items {args : List Expr} (plain : ∀ arg ∈ args, arg.commas = 0) (comma gap : Bool) :
    argumentNodes [] (spaced gap (itemNodes args comma)) = args.map Expr.nodes := by
  induction args generalizing gap with
  | nil => rfl
  | cons item rest ih =>
    have bare := (countP_spaced gap item.nodes).trans (plain item List.mem_cons_self)
    have later := ih (fun arg member => plain arg (List.mem_cons_of_mem _ member)) true
    rw [itemNodes, spaced_append (nodes_close item), argumentNodes_skip bare, List.nil_append, List.map_cons]
    rcases separator_cases rest comma with ⟨rfl, none⟩ | some
    · obtain ⟨node, others, shape, _⟩ := nodes_close item
      rw [none, itemNodes, spaced, List.append_nil, argumentNodes, spaced_spaced (nodes_close item), shape]
      rfl
    · rw [some, List.singleton_append, argumentNodes_comma, later, spaced_spaced (nodes_close item)]

end Counting

section Texts

variable {functions : List (AxFunctionPlan Code Step)} {records : List String} {rewrite : List Node → Option (List Char)}

theorem blank_false : blank false = [] := rfl

/-- A blank in front stays. -/
theorem text_spaced (gap : Bool) (before : List Node) {nodes : List Node} (close : Close nodes) :
    walk functions (textReading records rewrite) before (spaced gap nodes) =
      (walk functions (textReading records rewrite) before nodes).map (blank gap ++ ·) := by
  obtain ⟨node, rest, rfl, tight⟩ := close
  have same : declared functions before (node.withGap gap) = declared functions before node := declared_gap node gap before
  rcases call_cases functions before node rest with ⟨function, space, inner, others, known, rfl⟩ | noCall
  · obtain ⟨other, name, rfl⟩ := declared_word known
    obtain rfl : other = false := tight
    have behind := @walk_same _ _ functions _ (textReading records rewrite) _ _ others
      (shades_behind (.word false name) gap (.group space .parenthesis inner) before)
    rw [spaced, walk_call (same.trans known), walk_call known, behind]
    simp only [textReading, joined]
    cases nodeCallText records rewrite function inner <;> cases walk functions _ _ others <;>
      simp [Node.withGap, Node.gap, blank_false]
  · have behind := @walk_same _ _ functions _ (textReading records rewrite) _ _ rest (shades_gap node gap before)
    have inside : walkNode functions (textReading records rewrite) (node.withGap gap) =
        (walkNode functions (textReading records rewrite) node).map (blank gap ++ ·) := by
      cases node with
      | group space delimiter inner =>
        obtain rfl : space = false := tight
        simp only [Node.withGap, walkNode, textReading]
        cases walk functions _ [] inner <;> simp [blank_false]
      | _ =>
        obtain rfl := tight
        simp [Node.withGap, walkNode, textReading, blank_false]
    rw [spaced, walk_cons before (by rwa [same]), walk_cons before noCall, behind, inside]
    simp only [textReading, joined]
    cases walkNode functions _ node <;> cases walk functions _ _ rest <;> simp

theorem passExpr_print (field : AxFieldPlan Code) (arg : Expr) :
    (passExpr records field arg).print = passText records field arg.print := by
  unfold passExpr passText
  split
  · simp [Expr.paren, UnaryOp.chars, UnaryOp.nodes, blank, Sign.char, separator, separatorNodes, enclose, Delimiter.opening,
      Delimiter.closing]
  · split
    · rfl
    · simp [Expr.paren, turbofish, separator, separatorNodes, blank, enclose, Delimiter.opening, Delimiter.closing,
        Ident.chars, Word.chars, cloneName]

theorem printItems_join (items : List Expr) : printItems items false = [',', ' '].intercalate (items.map Expr.print) := by
  induction items with
  | nil => rfl
  | cons item rest ih =>
    cases rest with
    | nil => simp [separator, separatorNodes, blank]
    | cons next others =>
      rw [printItems_cons, ih]
      simp [separator, separatorNodes, blank, Sign.char, List.intercalate_cons_cons]

/-- The arguments, each rewritten and passed as its parameter says. -/
theorem passed_items {args : List Expr} {fields : List (AxFieldPlan Code)} (count : args.length = fields.length)
    (each : ∀ arg ∈ args, rewrite arg.nodes = some (arg.applied functions records).print) :
    ((args.map Expr.nodes).zip fields).mapM (fun (piece, field) => do
        let arg ← rewrite piece
        return passText records field arg) =
      some ((List.zipWith (passExpr records) fields (appliedItems functions records args)).map Expr.print) := by
  induction args generalizing fields with
  | nil =>
    cases fields with
    | nil => rfl
    | cons field rest => cases count
  | cons arg rest ih =>
    cases fields with
    | nil => cases count
    | cons field fields =>
      have later := ih (Nat.succ.inj count) fun next member => each next (List.mem_cons_of_mem _ member)
      rw [List.map_cons, List.zip_cons_cons, List.mapM_cons, later]
      simp [each arg List.mem_cons_self, appliedItems, passExpr_print]

/-- A call that is not hidden, with the right number of arguments and no other commas in them. -/
def Call.Sound (call : Call Code Step) : Prop :=
  call.hidden = false ∧ call.args.length = call.function.input.length ∧ call.counted = call.args.length

theorem sound_plain {call : Call Code Step} (sound : call.Sound) : ∀ arg ∈ call.args, arg.commas = 0 := by
  have total := sound.2.2
  rw [Call.counted] at total
  intro arg member
  have nothing : (call.args.map Expr.commas).sum = 0 := by omega
  exact List.sum_eq_zero_iff_forall_eq_nat.mp nothing arg.commas (List.mem_map_of_mem member)

theorem text_call {function : AxFunctionPlan Code Step} {args : List Expr} {comma : Bool}
    (sound : (⟨function, args, comma, false⟩ : Call Code Step).Sound)
    (each : ∀ arg ∈ args, rewrite arg.nodes = some (arg.applied functions records).print) :
    nodeCallText records rewrite function (itemNodes args comma) =
      some (calledText function ((List.zipWith (passExpr records) function.input
        (appliedItems functions records args)).map Expr.print)) := by
  have pieces := argument_items (sound_plain sound) comma false
  have same : spaced false (itemNodes args comma) = itemNodes args comma := by
    cases args with
    | nil => rfl
    | cons item rest => exact spaced_false (items_close item rest comma)
  have count : args.length = function.input.length := sound.2.1
  rw [same] at pieces
  rw [nodeCallText, pieces, List.length_map, if_neg (not_not.mpr count), passed_items count each]
  rfl

theorem separator_applied (items : List Expr) (comma : Bool) :
    separator (appliedItems functions records items) comma = separator items comma := by
  cases items <;> rfl

theorem print_length_items {args : List Expr} (comma : Bool) :
    ∀ arg ∈ args, arg.print.length ≤ (printItems args comma).length := by
  induction args with
  | nil => exact fun _ member => nomatch member
  | cons first rest ih =>
    intro arg member
    rw [printItems_cons, List.length_append, List.length_append]
    rcases List.mem_cons.mp member with rfl | behind
    · omega
    · have less := ih arg behind
      omega

mutual

/-- Sound calls, and nothing else, are rewritten in the text of an expression. -/
theorem text_expr (named : Named functions) (levels : Nat) (expr : Expr) (valid : expr.Valid) (before : List Node)
    (sound : ∀ call ∈ expr.calls functions (shades before), call.Sound) (enough : expr.print.length ≤ levels) :
    walk functions (textReading records (nodesAt functions records levels)) before expr.nodes =
      some (expr.applied functions records).print := by
  match expr with
  | .ident _ | .literal _ => exact text_flat rfl before
  | .path first second rest types =>
    have flat : (Expr.path first second rest types).nodes.all (!·.isGroup) = true := by
      rw [Expr.nodes, List.all_cons, List.all_append, flat_path, flat_turbofish]
      rfl
    exact text_flat flat before
  | .entry key value =>
    have less : value.print.length ≤ levels := by
      simp only [print_entry, List.length_append, List.length_cons] at enough
      omega
    rw [Expr.nodes, walk_cons before (.inr rfl), walk_cons _ (.inl rfl), text_spaced true _ (nodes_close value),
      text_expr named levels value valid _ sound less, Expr.applied, print_entry]
    simp [walkNode, textReading, joined, blank, Sign.char]
  | .field object name =>
    have less : object.print.length ≤ levels := by
      simp only [print_field, List.length_append] at enough
      omega
    rw [Expr.nodes, walk_append before object.nodes fun _ _ _ => .inr rfl,
      text_expr named levels object valid.2 before sound less, text_flat rfl, Expr.applied, print_field, print_member]
    rfl
  | .index object place =>
    have less : object.print.length + place.print.length ≤ levels := by
      simp only [print_index, enclose, List.length_append, List.length_cons] at enough
      omega
    rw [Expr.calls, List.forall_mem_append] at sound
    rw [Expr.nodes, walk_append before object.nodes fun _ _ _ => .inr rfl, walk_group,
      text_expr named levels object valid.2.1 before sound.1 (by omega),
      text_expr named levels place valid.2.2 [] sound.2 (by omega), Expr.applied, print_index]
    rfl
  | .call callee args comma =>
    have less : callee.print.length + (printItems args comma).length + 2 ≤ levels := by
      simp only [print_call, enclose, List.length_append, List.length_cons, List.length_nil] at enough
      omega
    cases known : callee.called functions with
    | some function =>
      obtain ⟨name, rfl⟩ := called_ident known
      rw [Expr.calls, known, List.forall_mem_cons] at sound
      have off : shades before = false := sound.1.1
      have here : (⟨function, args, comma, false⟩ : Call Code Step).Sound := off ▸ sound.1
      have called : declared functions before (.word false name.toWord) = some function := by
        rw [declared, off]
        exact known
      have shorter (arg : Expr) (member : arg ∈ args) : arg.print.length < levels := by
        have part := print_length_items comma arg member
        omega
      have each := text_args named levels args valid.2.2.2 sound.2 shorter
      have text : name.chars = function.name.toList := congrArg String.toList (declared_name called)
      rw [Expr.nodes, Expr.nodes, List.singleton_append, walk_call called, walk_nil, Expr.applied, known, print_question,
        print_call, print_ident, printItems_join, text]
      simp [textReading, text_call here each, joined, calledText, Node.gap, blank_false, enclose, Delimiter.opening,
        Delimiter.closing]
    | none =>
      rw [Expr.calls, known, List.forall_mem_append] at sound
      rw [Expr.nodes, walk_after (unnamed_callee known valid.1 before), walk_group,
        text_items named levels args comma valid.2.2.2 [] rfl sound.2 (by omega),
        text_expr named levels callee valid.2.2.1 before sound.1 (by omega), Expr.applied, known, print_call]
      rfl
  | .method object name types args comma =>
    have less : object.print.length + (printItems args comma).length ≤ levels := by
      simp only [print_method, enclose, List.length_append, List.length_cons] at enough
      omega
    rw [Expr.calls, List.forall_mem_append] at sound
    rw [Expr.nodes, walk_append before object.nodes fun _ _ _ => .inr rfl,
      text_expr named levels object valid.2.1 before sound.1 (by omega), ← List.append_assoc,
      walk_after (unnamed_method _ name types), text_flat (flat_method name types), walk_group,
      text_items named levels args comma valid.2.2 [] rfl sound.2 (by omega), Expr.applied, print_method]
    simp [textReading, joined, blank]
  | .macroCall first rest delimiter args comma =>
    have less : (printItems args comma).length ≤ levels := by
      simp only [print_macroCall, enclose, List.length_append, List.length_cons] at enough
      omega
    have shape : (Expr.macroCall first rest delimiter args comma).nodes =
        (macroHead first rest ++ [.sign false .bang]) ++ [.group false delimiter (itemNodes args comma)] := by
      simp [macroHead]
    rw [shape, walk_after (unnamed_last before _ fun _ => rfl), text_flat (flat_head first rest), walk_group,
      text_items named levels args comma valid [] rfl sound less, Expr.applied, print_macroCall]
    simp [textReading, joined, blank, macroHead, pathText, Ident.chars, Sign.char]
  | .unary op operand =>
    have less : operand.print.length ≤ levels := by
      simp only [print_unary, List.length_append] at enough
      omega
    have inner : ∀ call ∈ operand.calls functions (shades (op.nodes.reverse ++ before)), call.Sound := by
      rwa [shades_operator]
    rw [Expr.nodes, walk_after (unnamed_operator named op before), text_spaced _ _ (nodes_close operand),
      text_expr named levels operand valid _ inner less, text_flat (by cases op <;> rfl), Expr.applied, print_unary,
      UnaryOp.chars]
    simp [textReading, joined]
  | .binary op left right =>
    have less : left.print.length + right.print.length ≤ levels := by
      simp only [print_binary, List.length_append, List.length_cons] at enough
      omega
    rw [Expr.calls, List.forall_mem_append] at sound
    have inner (earlier : List Node) : ∀ call ∈ right.calls functions (shades (op.nodes.reverse ++ earlier)), call.Sound := by
      rw [shades_sign]
      exact sound.2
    rw [Expr.nodes, walk_append before left.nodes fun _ _ _ => .inr rfl, walk_operator,
      text_spaced true _ (nodes_close right), text_expr named levels left valid.1 before sound.1 (by omega),
      text_expr named levels right valid.2 _ (inner _) (by omega), text_flat (by cases op <;> rfl), Expr.applied,
      print_binary, BinaryOp.chars]
    simp [textReading, joined, blank]
  | .question operand =>
    have less : operand.print.length ≤ levels := by
      simp only [print_question, List.length_append] at enough
      omega
    rw [Expr.nodes, walk_append before operand.nodes fun _ _ _ => .inr rfl,
      text_expr named levels operand valid.2 before sound less, text_flat rfl, Expr.applied, print_question]
    rfl
  | .list delimiter items comma =>
    have less : (printItems items comma).length ≤ levels := by
      simp only [print_list, enclose, List.length_append, List.length_cons] at enough
      omega
    rw [Expr.nodes, walk_group, text_items named levels items comma valid [] rfl sound less, Expr.applied, print_list]
    rfl

theorem text_items (named : Named functions) (levels : Nat) (items : List Expr) (comma : Bool) (valid : ValidItems items)
    (before : List Node) (off : shades before = false) (sound : ∀ call ∈ itemCalls functions items, call.Sound)
    (enough : (printItems items comma).length ≤ levels) :
    walk functions (textReading records (nodesAt functions records levels)) before (itemNodes items comma) =
      some (printItems (appliedItems functions records items) comma) := by
  match items with
  | [] => exact walk_nil before
  | item :: rest =>
    rw [printItems_cons, List.length_append, List.length_append] at enough
    rw [itemCalls, List.forall_mem_append] at sound
    have first : ∀ call ∈ item.calls functions (shades before), call.Sound := by
      rw [off]
      exact sound.1
    rw [itemNodes, walk_append before item.nodes fun _ _ _ => .inr (startsGroup_separator rest comma),
      text_expr named levels item valid.1 before first (by omega), appliedItems, printItems_cons, separator_applied]
    rcases separator_cases rest comma with ⟨rfl, none⟩ | some
    · rw [none, separator, none, itemNodes, spaced, List.append_nil, walk_nil]
      rfl
    · have clear := shades_comma false (item.nodes.reverse ++ before) []
      have later := text_items named levels rest comma valid.2 (.sign false .comma :: (item.nodes.reverse ++ before)) clear
        sound.2 (by omega)
      rw [some, List.singleton_append, walk_cons _ (.inl rfl), separator, some]
      cases rest with
      | nil =>
        rw [itemNodes, spaced, walk_nil]
        simp [textReading, walkNode, joined, blank_false, appliedItems]
      | cons next others =>
        rw [text_spaced true _ (items_close next others comma), later]
        simp [textReading, walkNode, joined]

theorem text_args (named : Named functions) (levels : Nat) (args : List Expr) (valid : ValidItems args)
    (sound : ∀ call ∈ itemCalls functions args, call.Sound) (shorter : ∀ arg ∈ args, arg.print.length < levels) :
    ∀ arg ∈ args, nodesAt functions records levels arg.nodes = some (arg.applied functions records).print := by
  match args with
  | [] => exact fun _ member => nomatch member
  | first :: rest =>
    rw [itemCalls, List.forall_mem_append] at sound
    rw [List.forall_mem_cons] at shorter
    rw [List.forall_mem_cons]
    refine ⟨?_, text_args named levels rest valid.2 sound.2 shorter.2⟩
    cases levels with
    | zero => exact absurd shorter.1 (Nat.not_lt_zero _)
    | succ levels => exact text_expr named levels first valid.1 [] sound.1 (Nat.le_of_lt_succ shorter.1)

end

end Texts

section Marks

variable {functions : List (AxFunctionPlan Code Step)} {records : List String}

theorem marks_enclose (delimiter : Delimiter) (inner : List Char) : marks (enclose delimiter inner) = marks inner := by
  cases delimiter <;> simp [enclose, Delimiter.opening, Delimiter.closing, marks]

theorem marks_items (items : List Expr) (comma : Bool) :
    marks (printItems items comma) = (items.map fun item => marks item.print).sum := by
  induction items with
  | nil => rfl
  | cons item rest ih =>
    have none : marks (separator rest comma) = 0 := by
      cases rest <;> cases comma <;> rfl
    rw [printItems_cons, marks_append, marks_append, none, ih, List.map_cons, List.sum_cons]
    omega

theorem marks_passed {fields : List (AxFieldPlan Code)} {items : List Expr} (count : items.length = fields.length) :
    marks (printItems (List.zipWith (passExpr records) fields items) false) =
      (items.map fun item => marks item.print).sum := by
  rw [marks_items]
  induction items generalizing fields with
  | nil => cases fields <;> rfl
  | cons item rest ih =>
    cases fields with
    | nil => cases count
    | cons field fields =>
      rw [List.zipWith_cons_cons, List.map_cons, List.sum_cons, List.map_cons, List.sum_cons, passExpr_print, marks_pass,
        ih (Nat.succ.inj count)]

theorem appliedItems_length (items : List Expr) : (appliedItems functions records items).length = items.length := by
  induction items with
  | nil => rfl
  | cons item rest ih => rw [appliedItems, List.length_cons, List.length_cons, ih]

mutual

/-- What an expression should become has one mark more for each of its calls. -/
theorem marks_applied (shaded : Bool) (expr : Expr)
    (right : ∀ call ∈ expr.calls functions shaded, call.args.length = call.function.input.length) :
    marks (expr.applied functions records).print = marks expr.print + (expr.calls functions shaded).length := by
  match expr with
  | .ident _ | .path _ _ _ _ | .literal _ => rfl
  | .entry key value =>
    have inner := marks_applied false value right
    rw [Expr.applied, print_entry, print_entry, Expr.calls, marks_append, marks_append]
    simp only [marks, List.count_cons] at *
    omega
  | .field object name =>
    have inner := marks_applied shaded object right
    rw [Expr.applied, print_field, print_field, Expr.calls, marks_append, marks_append, inner]
    omega
  | .index object place =>
    rw [Expr.calls, List.forall_mem_append] at right
    have first := marks_applied shaded object right.1
    have second := marks_applied false place right.2
    rw [Expr.applied, print_index, print_index, Expr.calls, marks_append, marks_append, marks_enclose, marks_enclose, first,
      second, List.length_append]
    omega
  | .call callee args comma =>
    cases known : callee.called functions with
    | some function =>
      rw [Expr.calls, known, List.forall_mem_cons] at right
      have items := marks_applied_items args right.2
      have count : (appliedItems functions records args).length = function.input.length :=
        (appliedItems_length args).trans right.1
      rw [Expr.applied, known, print_question, print_call, print_call, Expr.calls, known, List.length_cons, marks_append,
        marks_append, marks_append, marks_enclose, marks_enclose, marks_passed count, marks_items, items]
      simp only [marks, List.count_singleton, beq_self_eq_true, if_true]
      omega
    | none =>
      rw [Expr.calls, known, List.forall_mem_append] at right
      have first := marks_applied shaded callee right.1
      have items := marks_applied_items args right.2
      rw [Expr.applied, known, print_call, print_call, Expr.calls, known, marks_append, marks_append, marks_enclose,
        marks_enclose, marks_items, marks_items, first, items, List.length_append]
      omega
  | .method object name types args comma =>
    rw [Expr.calls, List.forall_mem_append] at right
    have first := marks_applied shaded object right.1
    have items := marks_applied_items args right.2
    rw [Expr.applied, print_method, print_method, Expr.calls, List.length_append, marks_append, marks_append, first]
    simp only [← List.cons_append, marks_append, marks_enclose, marks_items, items]
    omega
  | .macroCall first rest delimiter args comma =>
    have items := marks_applied_items args right
    have mark (text : List Char) : marks ('!' :: text) = marks text := List.count_cons_of_ne (by decide)
    rw [Expr.applied, print_macroCall, print_macroCall, Expr.calls, marks_append, marks_append, mark, mark, marks_enclose,
      marks_enclose, marks_items, marks_items, items]
    omega
  | .unary op operand =>
    have inner := marks_applied (op == .rangeTo) operand right
    rw [Expr.applied, print_unary, print_unary, Expr.calls, marks_append, marks_append, inner]
    omega
  | .binary op left right' =>
    rw [Expr.calls, List.forall_mem_append] at right
    have first := marks_applied shaded left right.1
    have second := marks_applied (op == .range) right' right.2
    have space (text : List Char) : marks (' ' :: text) = marks text := List.count_cons_of_ne (by decide)
    rw [Expr.applied, print_binary, print_binary, Expr.calls, List.length_append]
    simp only [marks_append, space, first, second]
    omega
  | .question operand =>
    have inner := marks_applied shaded operand right
    rw [Expr.applied, print_question, print_question, Expr.calls, marks_append, marks_append, inner]
    omega
  | .list delimiter items comma =>
    have inner := marks_applied_items items right
    rw [Expr.applied, print_list, print_list, Expr.calls, marks_enclose, marks_enclose, marks_items, marks_items, inner]

theorem marks_applied_items (items : List Expr)
    (right : ∀ call ∈ itemCalls functions items, call.args.length = call.function.input.length) :
    ((appliedItems functions records items).map fun item => marks item.print).sum =
      (items.map fun item => marks item.print).sum + (itemCalls functions items).length := by
  match items with
  | [] => rfl
  | item :: rest =>
    rw [itemCalls, List.forall_mem_append] at right
    have first := marks_applied false item right.1
    have later := marks_applied_items rest right.2
    rw [appliedItems, List.map_cons, List.sum_cons, List.map_cons, List.sum_cons, itemCalls, List.length_append, first, later]
    omega

end

end Marks

section Results

variable {functions : List (AxFunctionPlan Code Step)} {records : List String}
  {tokenize : List Char → Option (List TokenTree)}

theorem seen_refused (calls : List (Call Code Step)) : (seen calls).any miscounted = calls.any Call.refused := by
  have count (args : List Expr) (comma : Bool) :
      (argumentNodes [] (itemNodes args comma)).length = args.length + (args.map Expr.commas).sum := by
    have items := count_items args comma false
    have same : spaced false (itemNodes args comma) = itemNodes args comma := by
      cases args with
      | nil => rfl
      | cons item rest => exact spaced_false (items_close item rest comma)
    rwa [same] at items
  rw [seen, List.any_map, List.any_filter]
  refine congrArg calls.any (funext fun call => ?_)
  rw [Function.comp, miscounted, count]
  rfl

theorem right_calls {expr : Expr} (right : expr.misapplied functions = false) :
    ∀ call ∈ expr.calls functions false, call.args.length = call.function.input.length := by
  intro call member
  have known := List.any_eq_false.mp right call member
  simpa using known

/-- What the code makes of the text of an expression, on nodes. -/
theorem rewriteCalls_nodes (tree : ExprTree)
    (lexed : ∀ part ∈ tree.expr.nodes :: cuts tree.expr.nodes, tokenize (printNodes part) = some (nodeTokens part 0)) :
    rewriteCalls functions records tokenize tree.expr.print =
      nodesAt functions records (tree.expr.print.length + 1) tree.expr.nodes :=
  rewriteCallsAt_nodes _ lexed

/-- Plain calls with the right number of arguments are rewritten, and nothing else is. -/
theorem nodesAt_plain (named : Named functions) (tree : ExprTree) (right : tree.expr.misapplied functions = false)
    (plain : (tree.expr.calls functions false).all Call.plain = true) :
    nodesAt functions records (tree.expr.print.length + 1) tree.expr.nodes =
      some (tree.expr.applied functions records).print := by
  have sound : ∀ call ∈ tree.expr.calls functions (shades []), call.Sound := by
    intro call member
    have known := List.all_eq_true.mp plain call member
    simp only [Call.plain, Bool.and_eq_true, Bool.not_eq_true', decide_eq_true_eq] at known
    exact ⟨known.1, right_calls right call member, known.2⟩
  exact text_expr named _ tree.expr tree.valid [] sound (Nat.le_refl _)

/-- The code does what the calls of an expression ask for if and only if it reads them well. -/
theorem rewriteCalls_iff (named : Named functions) (tree : ExprTree)
    (lexed : ∀ part ∈ tree.expr.nodes :: cuts tree.expr.nodes, tokenize (printNodes part) = some (nodeTokens part 0)) :
    rewriteCalls functions records tokenize tree.expr.print = tree.expr.rewritten functions records ↔
      tree.expr.wellRead functions = true := by
  have told := @told_nodes _ _ functions records (tree.expr.print.length + 1) tree.expr.nodes (Nat.lt_succ_self _)
  have calls : sites functions tree.expr.nodes = seen (tree.expr.calls functions false) :=
    walk_sites named tree.expr tree.valid []
  rw [calls, Told, seen_refused] at told
  rw [rewriteCalls_nodes tree lexed, Expr.rewritten, Expr.wellRead]
  cases bad : tree.expr.misapplied functions with
  | true =>
    rw [if_pos rfl, if_pos rfl]
    split at told
    · next refused => exact iff_of_true told refused
    · next taken =>
      obtain ⟨new, text, _⟩ := told
      rw [text]
      exact iff_of_false (fun none => by cases none) taken
  | false =>
    rw [if_neg Bool.false_ne_true, if_neg Bool.false_ne_true]
    refine ⟨fun same => ?_, nodesAt_plain named tree bad⟩
    have right := right_calls bad
    rw [same] at told
    split at told
    · cases told
    · next taken =>
      obtain ⟨new, text, count⟩ := told
      have marked := @marks_applied _ _ functions records false tree.expr right
      rw [Option.some.inj text, count, seen, List.length_map] at marked
      have all : ((tree.expr.calls functions false).filter fun call => !call.hidden).length =
          (tree.expr.calls functions false).length := Nat.add_left_cancel marked
      have visible := List.length_filter_eq_length_iff.mp all
      apply List.all_eq_true.mpr
      intro call member
      have shown := visible call member
      have counted : call.refused = false := by
        simpa using List.any_eq_false.mp (Bool.not_eq_true _ ▸ taken) call member
      rw [Call.refused, shown, ← right call member] at counted
      rw [Call.plain, shown]
      simpa using counted

end Results

section Examples

def echo : Ident := ⟨⟨"echo", by decide, by decide⟩, by decide⟩

def text : Ident := ⟨⟨"text", by decide, by decide⟩, by decide⟩

def parse : Ident := ⟨⟨"parse", by decide, by decide⟩, by decide⟩

def echoPlan : AxFunctionPlan Unit Unit := ⟨"echo", "echo", none, [⟨"text", "String", false, none⟩], [], true⟩

theorem echo_named : Named [echoPlan] :=
  fun function member => ⟨echo, by rw [List.mem_singleton.mp member]; rfl⟩

/-- `text.echo(echo(text))` -/
def echoTree : ExprTree :=
  ⟨.method (.ident text) echo [] [.call (.ident echo) [.ident text] false] false, by
    simp [Expr.Valid, ValidItems, Expr.isOperation, Expr.isField]⟩

/-- `echo(text.parse::<echo, text>())` -/
def typedTree : ExprTree :=
  ⟨.call (.ident echo) [.method (.ident text) parse [.named echo [] [], .named text [] []] [] false] false, by
    simp [Expr.Valid, ValidItems, Expr.isOperation, Expr.isField]⟩

/-- The tokens of an expression and of the arguments in it. -/
def readParts (nodes : List Node) (code : List Char) : Option (List TokenTree) :=
  ((nodes :: cuts nodes).find? fun part => printNodes part = code).map fun part => nodeTokens part 0

theorem echo_lexed : ∀ part ∈ echoTree.expr.nodes :: cuts echoTree.expr.nodes,
    readParts echoTree.expr.nodes (printNodes part) = some (nodeTokens part 0) := by
  have parts : cuts echoTree.expr.nodes = [(Expr.call (.ident echo) [.ident text] false).nodes, (Expr.ident text).nodes] := rfl
  intro part member
  rw [parts] at member
  simp only [List.mem_cons, List.not_mem_nil, or_false] at member
  rcases member with rfl | rfl | rfl <;> rfl

theorem echo_rewritten : rewriteCalls [echoPlan] [] (readParts echoTree.expr.nodes) echoTree.expr.print =
    echoTree.expr.rewritten [echoPlan] [] :=
  (rewriteCalls_iff echo_named echoTree echo_lexed).mpr (by decide +kernel)

theorem typed_lexed : ∀ part ∈ typedTree.expr.nodes :: cuts typedTree.expr.nodes,
    readParts typedTree.expr.nodes (printNodes part) = some (nodeTokens part 0) := by
  have parts : cuts typedTree.expr.nodes = [[.word false text.toWord, .sign false .dot, .word false parse.toWord,
      .sign false .colon, .sign false .colon, .sign false .less, .word false echo.toWord],
    [.word false text.toWord, .sign false .greater, .group false .parenthesis []]] := rfl
  intro part member
  rw [parts] at member
  simp only [List.mem_cons, List.not_mem_nil, or_false] at member
  rcases member with rfl | rfl | rfl <;> rfl

/-- The comma between the two types makes two arguments of the one. -/
theorem typed_refused : rewriteCalls [echoPlan] [] (readParts typedTree.expr.nodes) typedTree.expr.print ≠
    typedTree.expr.rewritten [echoPlan] [] := by
  rw [rewriteCalls_nodes typedTree typed_lexed]
  decide +kernel

end Examples

end Axonyx.Core.Rust
