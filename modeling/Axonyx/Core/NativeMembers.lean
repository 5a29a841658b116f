import Axonyx.Core.RustTokens

/-! The members of native JSON values in Rust code: which of them `rewrite_members` turns into
indexes, and where that is not what the expression says. -/
namespace Axonyx.Core.Rust

open Axonyx.Edits

section Rewriter

/-- How many tokens a chain goes on for: indexes and members, but no methods. -/
def links : List TokenTree → Nat
  | .group .bracket _ _ _ :: rest => links rest + 1
  | .punct '.' _ :: .ident _ _ :: rest => if startsParenthesis rest then 0 else links rest + 2
  | _ => 0

variable (bindings : List String)

mutual

def root : TokenTree → Bool
  | .ident name _ => name ∈ bindings
  | .group .parenthesis stream _ _ => chainEnd stream = some stream.length
  | _ => false

def chainEnd : List TokenTree → Option Nat
  | [] => none
  | token :: rest => if root token then some (1 + links rest) else none

end

/-- `trim_start_matches("r#")`. -/
def trimRaw : List Char → List Char
  | 'r' :: '#' :: rest => trimRaw rest
  | text => text

variable (debug : String → Literal)

/-- A name as the text of a string in brackets. -/
def indexText (name : String) : List Char := enclose .bracket (debug (.ofList (trimRaw name.toList))).chars

/-- The replacements for the members of a chain. -/
def members : List TokenTree → List Replacement
  | .punct '.' dot :: .ident name span :: rest => ⟨dot.start, span.stop, indexText debug name⟩ :: members rest
  | _ :: rest => members rest
  | [] => []

mutual

/-- `collect` behind the tokens `before`, the nearest of them first. -/
def collect (before : List TokenTree) : List TokenTree → List Replacement
  | [] => []
  | token :: rest =>
    collectGroup token ++ ((if isMemberPlace before then []
      else match chainEnd bindings (token :: rest) with
        | none => []
        | some stop => members debug (rest.take (stop - 1))) ++ collect (token :: before) rest)

def collectGroup : TokenTree → List Replacement
  | .group _ stream _ _ => collect [] stream
  | _ => []

end

variable (tokenize : List Char → Option (List TokenTree))

def isJsonAlias (code : List Char) : Bool :=
  match tokenize code with
  | none => false
  | some tokens => chainEnd bindings tokens = some tokens.length

def rewriteMembers (code : List Char) : Option (List Char) :=
  if bindings.isEmpty then some code
  else do
    let tokens ← tokenize code
    splice code (collect bindings debug [] tokens)

end Rewriter

section Meaning

variable (bindings : List String)

/-- A variable of the bindings, reached through members, indexes and parentheses only. -/
def Expr.reached : Expr → Bool
  | .ident name => name.text ∈ bindings
  | .field object _ => object.reached
  | .index object _ => object.reached
  | .list .parenthesis [inner] false => inner.reached
  | _ => false

/-- Arguments that look like a bound value in parentheses. -/
def single : List Expr → Bool → Bool
  | [item], false => item.reached bindings
  | _, _ => false

/-- What the token trees take for a bound value: also a call with nothing but one as argument, but
none that begins behind the dots of a range. -/
def Expr.taken (shaded : Bool) : Expr → Bool
  | .ident name => !shaded && name.text ∈ bindings
  | .field object _ => object.taken shaded
  | .index object _ => object.taken shaded
  | .list .parenthesis args comma => !shaded && single bindings args comma
  | .call _ args comma | .method _ _ _ args comma | .macroCall _ _ .parenthesis args comma => single bindings args comma
  | _ => false

variable (debug : String → Literal)

def member (name : Ident) : Literal := debug (.ofList (trimRaw name.chars))

mutual

/-- The expression with the members of bound values as indexes. -/
def Expr.indexed : Expr → Expr
  | .ident name => .ident name
  | .path first second rest types => .path first second rest types
  | .literal value => .literal value
  | .entry key value => .entry key value.indexed
  | .field object name =>
    if object.reached bindings then .index object.indexed (.literal (member debug name)) else .field object.indexed name
  | .index object place => .index object.indexed place.indexed
  | .call callee args comma => .call callee.indexed (indexedItems args) comma
  | .method object name types args comma => .method object.indexed name types (indexedItems args) comma
  | .macroCall first rest delimiter args comma => .macroCall first rest delimiter (indexedItems args) comma
  | .unary op operand => .unary op operand.indexed
  | .binary op left right => .binary op left.indexed right.indexed
  | .question operand => .question operand.indexed
  | .list delimiter items comma => .list delimiter (indexedItems items) comma

def indexedItems : List Expr → List Expr
  | [] => []
  | item :: items => item.indexed :: indexedItems items

end

mutual

/-- Some member has an object that is taken for a bound value and is none, or the other way round,
or some method with type arguments is taken for the member of a bound value. -/
def Expr.misread (shaded : Bool) : Expr → Bool
  | .ident _ | .path _ _ _ _ | .literal _ => false
  | .entry _ value => value.misread false
  | .field object _ => object.taken bindings shaded != object.reached bindings || object.misread shaded
  | .index object place => object.misread shaded || place.misread false
  | .call callee args _ => callee.misread shaded || misreadItems args
  | .method object _ types args _ =>
    !types.isEmpty && object.taken bindings shaded || (object.misread shaded || misreadItems args)
  | .macroCall _ _ _ args _ => misreadItems args
  | .unary op operand => operand.misread (op == .rangeTo)
  | .binary op left right => left.misread shaded || right.misread (op == .range)
  | .question operand => operand.misread shaded
  | .list _ items _ => misreadItems items

def misreadItems : List Expr → Bool
  | [] => false
  | item :: items => item.misread false || misreadItems items

end

end Meaning

section Chains

variable {bindings : List String}

@[simp] theorem links_bracket (inner : List Node) (place : Nat) (rest : List TokenTree) :
    links ((Node.group false .bracket inner).token place :: rest) = links rest + 1 := rfl

theorem links_member (name : Ident) (place : Nat) {rest : List TokenTree} (noCall : startsParenthesis rest = false) :
    links (nodeTokens (memberNodes name) place ++ rest) = links rest + 2 := by
  simp [memberNodes, Node.token, Sign.char, links, noCall]

theorem links_method (name : Ident) (place : Nat) {rest : List TokenTree} (call : startsParenthesis rest = true) :
    links (nodeTokens (memberNodes name) place ++ rest) = 0 := by
  simp [memberNodes, Node.token, Sign.char, links, call]

theorem links_punct {c : Char} (other : c ≠ '.') (span : Span) (rest : List TokenTree) :
    links (.punct c span :: rest) = 0 := by
  cases rest with
  | nil => simp [links]
  | cons next others => cases next <;> simp [links, other]

theorem links_signs (c : Char) (first second : Span) (rest : List TokenTree) :
    links (.punct '.' first :: .punct c second :: rest) = 0 := by
  simp [links]

/-- A first token that goes on with no chain keeps the tokens from being one. -/
theorem unlinked {token : TokenTree} {rest : List TokenTree} (stuck : links (token :: rest) = 0) :
    links (token :: rest) ≠ (token :: rest).length := by
  rw [stuck]
  exact (Nat.succ_ne_zero rest.length).symm

theorem op_stuck (op : BinaryOp) (place : Nat) (rest : List TokenTree) : ∃ token others,
    nodeTokens op.nodes place ++ rest = token :: others ∧ links (token :: others) = 0 ∧
      startsParenthesis (token :: others) = false := by
  cases op with
  | range | rangeInclusive => exact ⟨_, _, rfl, links_signs _ _ _ _, rfl⟩
  | _ => exact ⟨_, _, rfl, links_punct (by decide) _ _, rfl⟩

theorem stuck_chain {token : TokenTree} {rest before : List TokenTree} {reached : Prop}
    (ih : chainEnd bindings (before ++ token :: rest) = some (before ++ token :: rest).length ↔
      reached ∧ links (token :: rest) = (token :: rest).length) (stuck : links (token :: rest) = 0) :
    ¬chainEnd bindings (before ++ token :: rest) = some (before ++ token :: rest).length := by
  rw [ih]
  exact fun both => unlinked stuck both.2

theorem first_off {token : TokenTree} {rest : List TokenTree} (off : root bindings token = false) :
    ¬chainEnd bindings (token :: rest) = some (token :: rest).length := by
  simp [chainEnd, off]

theorem first_stuck {token next : TokenTree} {rest : List TokenTree} (stuck : links (next :: rest) = 0) :
    ¬chainEnd bindings (token :: next :: rest) = some (token :: next :: rest).length := by
  unfold chainEnd
  split
  · simp [stuck]
  · simp

theorem reached_list (items : List Expr) (comma : Bool) :
    (Expr.list .parenthesis items comma).reached bindings = single bindings items comma := by
  unfold single
  split
  · rw [Expr.reached]
  · next other =>
    unfold Expr.reached
    split
    all_goals simp_all

/-- A method is no part of a chain. -/
theorem method_unlinked (name : Ident) (types : List TypeArg) (args : List Node) (place start paren : Nat)
    (after : List TokenTree) :
    links (nodeTokens (memberNodes name) place ++ (nodeTokens (turbofish types) start ++
      ((Node.group false .parenthesis args).token paren :: after))) ≠
      (nodeTokens (memberNodes name) place ++ (nodeTokens (turbofish types) start ++
        ((Node.group false .parenthesis args).token paren :: after))).length := by
  cases types with
  | nil =>
    rw [links_method name _ rfl]
    exact (Nat.succ_ne_zero _).symm
  | cons type types =>
    have stuck : links (nodeTokens (turbofish (type :: types)) start ++
        ((Node.group false .parenthesis args).token paren :: after)) = 0 := links_punct (by decide) _ _
    rw [links_member name _ rfl, stuck]
    simp only [List.length_append, memberNodes, nodeTokens_cons, nodeTokens_nil, List.length_cons, List.length_nil]
    omega

mutual

/-- The tokens of an expression with what follows them are one chain. -/
theorem chainEnd_tokens (bindings : List String) (expr : Expr) (valid : expr.Valid) (place : Nat)
    (after : List TokenTree) (follows : expr.isField = true → startsParenthesis after = false) :
    chainEnd bindings (expr.tokens place ++ after) = some (expr.tokens place ++ after).length ↔
      expr.reached bindings = true ∧ links after = after.length := by
  match expr with
  | .ident name =>
    by_cases bound : name.text ∈ bindings
    · simp [Expr.tokens, Expr.nodes, Node.token, chainEnd, root, Expr.reached, bound, Nat.add_comm 1]
    · simp [Expr.tokens, Expr.nodes, Node.token, chainEnd, root, Expr.reached, bound]
  | .path first second rest types =>
    exact iff_of_false (@first_stuck bindings _ (.punct ':' _) _ (links_punct (by decide) _ _)) fun both => nomatch both.1
  | .literal _ => exact iff_of_false (first_off rfl) fun both => nomatch both.1
  | .entry _ _ => exact iff_of_false (first_off rfl) fun both => nomatch both.1
  | .field object name =>
    have ih := chainEnd_tokens bindings object valid.2 place
      (nodeTokens (memberNodes name) (place + byteLength object.print) ++ after) fun _ => rfl
    rw [tokens_field, List.append_assoc, ih, Expr.reached, links_member name _ (follows rfl)]
    simp [memberNodes]
  | .index object inner =>
    have ih := chainEnd_tokens bindings object valid.2.1 place
      ((Node.group false .bracket inner.nodes).token (place + byteLength object.print) :: after) fun _ => rfl
    rw [tokens_index, List.append_assoc, List.singleton_append, ih, Expr.reached, links_bracket]
    simp
  | .call callee args comma =>
    have ih := chainEnd_tokens bindings callee valid.2.2.1 place
      ((Node.group false .parenthesis (itemNodes args comma)).token (place + byteLength callee.print) :: after)
      fun field => absurd field (by simp [valid.2.1])
    rw [tokens_call, List.append_assoc, List.singleton_append]
    exact iff_of_false (stuck_chain ih rfl) fun both => nomatch both.1
  | .method object name types args comma =>
    have ih := chainEnd_tokens bindings object valid.2.1 place
      (nodeTokens (memberNodes name) (place + byteLength object.print) ++
        (nodeTokens (turbofish types) (place + byteLength object.print + byteLength ('.' :: name.chars)) ++
          ((Node.group false .parenthesis (itemNodes args comma)).token (place + byteLength object.print +
            byteLength ('.' :: name.chars) + byteLength (printNodes (turbofish types))) :: after)))
      fun _ => rfl
    rw [tokens_method, List.append_assoc, List.append_assoc, List.append_assoc, List.singleton_append, ih]
    exact iff_of_false (fun both => method_unlinked name types (itemNodes args comma) _ _ _ after both.2)
      fun both => nomatch both.1
  | .macroCall first [] delimiter args comma =>
    exact iff_of_false (@first_stuck bindings _ (.punct '!' _) _ (links_punct (by decide) _ _)) fun both => nomatch both.1
  | .macroCall first (second :: rest) delimiter args comma =>
    exact iff_of_false (@first_stuck bindings _ (.punct ':' _) _ (links_punct (by decide) _ _)) fun both => nomatch both.1
  | .unary op operand =>
    have off : ¬chainEnd bindings (nodeTokens op.nodes place ++ (operand.tokens (place + byteLength op.chars) ++ after)) =
        some (nodeTokens op.nodes place ++ (operand.tokens (place + byteLength op.chars) ++ after)).length := by
      cases op <;> exact first_off rfl
    rw [tokens_unary, List.append_assoc]
    exact iff_of_false off fun both => nomatch both.1
  | .binary op left right =>
    obtain ⟨token, others, shape, stuck, noCall⟩ := op_stuck op (place + byteLength left.print)
      (right.tokens (place + byteLength left.print + byteLength op.chars + 1) ++ after)
    have ih := chainEnd_tokens bindings left valid.1 place (token :: others) fun _ => noCall
    rw [tokens_binary, List.append_assoc, List.append_assoc, shape]
    exact iff_of_false (stuck_chain ih stuck) fun both => nomatch both.1
  | .question operand =>
    have ih := chainEnd_tokens bindings operand valid.2 place
      (.punct '?' ⟨place + byteLength operand.print, place + byteLength operand.print + 1⟩ :: after) fun _ => rfl
    rw [tokens_question, List.append_assoc, List.singleton_append]
    exact iff_of_false (stuck_chain ih (links_punct (by decide) _ _)) fun both => nomatch both.1
  | .list .parenthesis items comma =>
    have inner := chainEnd_items bindings items comma valid (place + 1)
    rw [reached_list, ← inner]
    by_cases whole : chainEnd bindings (itemTokens items comma (place + 1)) = some (itemTokens items comma (place + 1)).length
    · have shown : chainEnd bindings (nodeTokens (itemNodes items comma) (place + 1)) =
          some (nodeTokens (itemNodes items comma) (place + 1)).length := whole
      simp [Expr.tokens, Expr.nodes, Node.token, chainEnd, root, shown, whole, Nat.add_comm 1]
    · have shown : ¬chainEnd bindings (nodeTokens (itemNodes items comma) (place + 1)) =
          some (nodeTokens (itemNodes items comma) (place + 1)).length := whole
      simp [Expr.tokens, Expr.nodes, Node.token, chainEnd, root, shown, whole]
  | .list .bracket _ _ | .list .brace _ _ => exact iff_of_false (first_off rfl) fun both => nomatch both.1

/-- A bound value alone in parentheses. -/
theorem chainEnd_items (bindings : List String) (items : List Expr) (comma : Bool) (valid : ValidItems items)
    (place : Nat) : chainEnd bindings (itemTokens items comma place) = some (itemTokens items comma place).length ↔
      single bindings items comma = true := by
  match items with
  | [] => simp [itemTokens, itemNodes, chainEnd, single]
  | [item] =>
    cases comma with
    | false =>
      have ih := chainEnd_tokens bindings item valid.1 place [] fun _ => rfl
      rw [List.append_nil] at ih
      rw [itemTokens_cons]
      simpa [separatorNodes, itemTokens, itemNodes, single, links] using ih
    | true =>
      have ih := chainEnd_tokens bindings item valid.1 place
        [.punct ',' ⟨place + byteLength item.print, place + byteLength item.print + 1⟩] fun _ => rfl
      rw [itemTokens_cons]
      exact iff_of_false (stuck_chain ih (links_punct (by decide) _ _)) fun both => nomatch both
  | item :: next :: rest =>
    have ih := chainEnd_tokens bindings item valid.1 place
      (.punct ',' ⟨place + byteLength item.print, place + byteLength item.print + 1⟩ :: itemTokens (next :: rest) comma
        (place + byteLength item.print + byteLength (separator (next :: rest) comma))) fun _ => rfl
    rw [itemTokens_cons]
    exact iff_of_false (stuck_chain ih (links_punct (by decide) _ _)) fun both => nomatch both

end

end Chains

section Pieces

variable (debug : String → Literal)

/-- A member that stays or becomes an index. -/
def memberPiece (changes : Bool) (name : Ident) : Piece :=
  if changes then .changed ('.' :: name.chars) (indexText debug name.text) else .kept ('.' :: name.chars)

theorem memberPiece_old (changes : Bool) (name : Ident) : (memberPiece debug changes name).old = '.' :: name.chars := by
  cases changes <;> rfl

theorem solid_member (changes : Bool) (name : Ident) {rest : List Piece} (solid : Solid rest) :
    Solid (memberPiece debug changes name :: rest) := by
  cases changes with
  | false => exact solid_kept _ solid
  | true =>
    intro old new inside
    rcases List.mem_cons.mp inside with same | behind
    · obtain ⟨rfl, _⟩ := Piece.changed.inj same
      exact List.cons_ne_nil _ _
    · exact solid old new behind

variable (field method : Bool → Expr → Bool)

mutual

/-- The parts of an expression's text, with the members that become indexes; both tests know
whether the expression begins behind the dots of a range. -/
def Expr.pieces (shaded : Bool) : Expr → List Piece
  | .ident name => [.kept name.chars]
  | .path first second rest types => [.kept (pathText first (second :: rest) ++ printNodes (turbofish types))]
  | .literal value => [.kept value.chars]
  | .entry key value => .kept (key.chars ++ [':', ' ']) :: value.pieces false
  | .field object name => object.pieces shaded ++ [memberPiece debug (field shaded object) name]
  | .index object place => object.pieces shaded ++ groupPieces .bracket (place.pieces false)
  | .call callee args comma => callee.pieces shaded ++ groupPieces .parenthesis (itemPieces args comma)
  | .method object name types args comma =>
    object.pieces shaded ++ (memberPiece debug (!types.isEmpty && method shaded object) name ::
      .kept (printNodes (turbofish types)) :: groupPieces .parenthesis (itemPieces args comma))
  | .macroCall first rest delimiter args comma =>
    .kept (pathText first rest ++ ['!']) :: groupPieces delimiter (itemPieces args comma)
  | .unary op operand => .kept op.chars :: operand.pieces (op == .rangeTo)
  | .binary op left right => left.pieces shaded ++ (.kept (op.chars ++ [' ']) :: right.pieces (op == .range))
  | .question operand => operand.pieces shaded ++ [.kept ['?']]
  | .list delimiter items comma => groupPieces delimiter (itemPieces items comma)

def itemPieces : List Expr → Bool → List Piece
  | [], _ => []
  | item :: items, comma => item.pieces false ++ (.kept (separator items comma) :: itemPieces items comma)

end

mutual

theorem olds_pieces (shaded : Bool) (expr : Expr) : olds (expr.pieces debug field method shaded) = expr.print := by
  match expr with
  | .ident _ | .path _ _ _ _ | .literal _ => simp [Expr.pieces]
  | .entry _ value => simp [Expr.pieces, olds_pieces false value]
  | .field object name => simp [Expr.pieces, memberPiece_old, olds_pieces shaded object]
  | .index object place => simp [Expr.pieces, olds_group, olds_pieces shaded object, olds_pieces false place]
  | .call callee args comma => simp [Expr.pieces, olds_group, olds_pieces shaded callee, olds_items args comma]
  | .method object name types args comma =>
    simp [Expr.pieces, memberPiece_old, olds_group, olds_pieces shaded object, olds_items args comma]
  | .macroCall _ _ _ args comma => simp [Expr.pieces, olds_group, olds_items args comma]
  | .unary op operand => simp [Expr.pieces, olds_pieces (op == .rangeTo) operand]
  | .binary op left right =>
    simp [Expr.pieces, olds_pieces shaded left, olds_pieces (op == .range) right]
  | .question operand => simp [Expr.pieces, olds_pieces shaded operand]
  | .list _ items comma => simp [Expr.pieces, olds_group, olds_items items comma]

theorem olds_items (items : List Expr) (comma : Bool) :
    olds (itemPieces debug field method items comma) = printItems items comma := by
  match items with
  | [] => rfl
  | item :: rest => simp [itemPieces, olds_pieces false item, olds_items rest comma]

end

mutual

theorem solid_pieces (shaded : Bool) (expr : Expr) : Solid (expr.pieces debug field method shaded) := by
  match expr with
  | .ident _ | .path _ _ _ _ | .literal _ => exact solid_kept _ solid_nil
  | .entry _ value => exact solid_kept _ (solid_pieces false value)
  | .field object name => exact solid_append (solid_pieces shaded object) (solid_member debug _ name solid_nil)
  | .index object place => exact solid_append (solid_pieces shaded object) (solid_group (solid_pieces false place))
  | .call callee args comma => exact solid_append (solid_pieces shaded callee) (solid_group (solid_items args comma))
  | .method object name types args comma =>
    exact solid_append (solid_pieces shaded object)
      (solid_member debug _ name (solid_kept _ (solid_group (solid_items args comma))))
  | .macroCall _ _ _ args comma => exact solid_kept _ (solid_group (solid_items args comma))
  | .unary _ operand => exact solid_kept _ (solid_pieces _ operand)
  | .binary _ left right => exact solid_append (solid_pieces shaded left) (solid_kept _ (solid_pieces _ right))
  | .question operand => exact solid_append (solid_pieces shaded operand) (solid_kept _ solid_nil)
  | .list _ items comma => exact solid_group (solid_items items comma)

theorem solid_items (items : List Expr) (comma : Bool) : Solid (itemPieces debug field method items comma) := by
  match items with
  | [] => exact solid_nil
  | item :: rest => exact solid_append (solid_pieces false item) (solid_kept _ (solid_items rest comma))

end

end Pieces

section Collecting

variable {bindings : List String} {debug : String → Literal}

/-- The replacements in what follows a chain. -/
def continued (debug : String → Literal) (after : List TokenTree) : List Replacement :=
  members debug (after.take (links after))

theorem continued_stuck {after : List TokenTree} (stuck : links after = 0) : continued debug after = [] := by
  rw [continued, stuck]
  cases after <;> rfl

theorem continued_bracket (inner : List Node) (place : Nat) (rest : List TokenTree) :
    continued debug ((Node.group false .bracket inner).token place :: rest) = continued debug rest := by
  rw [continued, links_bracket, List.take_succ_cons, Node.token, members]
  · rfl
  · simp

theorem continued_member (name : Ident) (place : Nat) {rest : List TokenTree} (noCall : startsParenthesis rest = false) :
    continued debug (nodeTokens (memberNodes name) place ++ rest) =
      edits place [memberPiece debug true name] ++ continued debug rest := by
  have dot : Char.utf8Size '.' = 1 := by decide
  rw [continued, links_member name place noCall]
  simp [memberNodes, Node.token, Node.print, Sign.char, members, edits, continued, memberPiece, blank, dot, Nat.add_assoc,
    Ident.chars]

/-- A method with type arguments looks like a member. -/
theorem continued_method (name : Ident) (types : List TypeArg) (args : List Node) (place start paren : Nat)
    (after : List TokenTree) : continued debug (nodeTokens (memberNodes name) place ++
      (nodeTokens (turbofish types) start ++ ((Node.group false .parenthesis args).token paren :: after))) =
        edits place [memberPiece debug (!types.isEmpty) name] := by
  cases types with
  | nil => exact continued_stuck (links_method name place rfl)
  | cons type types =>
    have stuck : links (nodeTokens (turbofish (type :: types)) start ++
        ((Node.group false .parenthesis args).token paren :: after)) = 0 := links_punct (by decide) _ _
    rw [continued_member name place rfl, continued_stuck stuck, List.append_nil]
    rfl

/-- One token: what its group has, and its chain if one begins here. -/
theorem collect_cons (before : List TokenTree) (token : TokenTree) (rest : List TokenTree) :
    collect bindings debug before (token :: rest) = collectGroup bindings debug token ++
      ((if isMemberPlace before = false ∧ root bindings token = true then continued debug rest else []) ++
        collect bindings debug (token :: before) rest) := by
  rw [collect]
  by_cases place : isMemberPlace before = true
  · simp [place]
  · by_cases bound : root bindings token = true
    · simp [place, bound, chainEnd, continued]
    · simp [place, bound, chainEnd]

/-- A token without a group that begins no chain. -/
theorem collect_plain {before : List TokenTree} {token : TokenTree} (rest : List TokenTree)
    (noGroup : collectGroup bindings debug token = []) (off : isMemberPlace before = true ∨ root bindings token = false) :
    collect bindings debug before (token :: rest) = collect bindings debug (token :: before) rest := by
  rw [collect_cons, noGroup, if_neg]
  · rfl
  · rintro ⟨place, bound⟩
    rcases off with here | none
    · simp [here] at place
    · simp [none] at bound

/-- A token without a group in front of what continues no chain. -/
theorem collect_stuck {before : List TokenTree} {token : TokenTree} {rest : List TokenTree}
    (noGroup : collectGroup bindings debug token = []) (stuck : links rest = 0) :
    collect bindings debug before (token :: rest) = collect bindings debug (token :: before) rest := by
  rw [collect_cons, noGroup, continued_stuck stuck, ite_self]
  rfl

theorem collect_member (before : List TokenTree) (name : Ident) (place : Nat) (after : List TokenTree) :
    collect bindings debug before (nodeTokens (memberNodes name) place ++ after) =
      collect bindings debug ((nodeTokens (memberNodes name) place).reverse ++ before) after := by
  have inner : isMemberPlace ((Node.sign false .dot).token place :: before) = true := isMemberPlace_dot _ _
  rw [memberNodes, nodeTokens_cons, List.cons_append, collect_plain _ rfl (.inr rfl), nodeTokens_cons, List.cons_append,
    @collect_plain bindings debug _ _ _ rfl (.inl inner)]
  rfl

theorem collect_path (before : List TokenTree) (names : List Ident) (place : Nat) (after : List TokenTree) :
    collect bindings debug before (nodeTokens (pathNodes names) place ++ after) =
      collect bindings debug ((nodeTokens (pathNodes names) place).reverse ++ before) after := by
  induction names generalizing before place with
  | nil => rfl
  | cons name rest ih =>
    have same : pathNodes (name :: rest) =
        .sign false .colon :: .sign false .colon :: .word false name.toWord :: pathNodes rest := rfl
    have inner (first second : Nat) : isMemberPlace ((Node.sign false .colon).token second ::
        (Node.sign false .colon).token first :: before) = true := rfl
    rw [same, nodeTokens_cons, List.cons_append, collect_plain _ rfl (.inr rfl), nodeTokens_cons, List.cons_append,
      collect_plain _ rfl (.inr rfl), nodeTokens_cons, List.cons_append,
      @collect_plain bindings debug _ _ _ rfl (.inl (inner _ _)), ih]
    simp

theorem links_quiet {nodes : List Node} (quiet : nodes.all Node.quiet = true) (place : Nat) {after : List TokenTree}
    (stuck : links after = 0) : links (nodeTokens nodes place ++ after) = 0 := by
  cases nodes with
  | nil => exact stuck
  | cons node rest =>
    cases node with
    | word gap name => rfl
    | sign gap mark =>
      have other : mark.char ≠ '.' := by cases mark <;> first | decide | simp [Node.quiet] at quiet
      exact links_punct other _ _
    | literal _ _ | group _ _ _ => simp [Node.quiet] at quiet

theorem collect_quiet {nodes : List Node} (quiet : nodes.all Node.quiet = true) (before : List TokenTree) (place : Nat)
    {after : List TokenTree} (stuck : links after = 0) :
    collect bindings debug before (nodeTokens nodes place ++ after) =
      collect bindings debug ((nodeTokens nodes place).reverse ++ before) after := by
  induction nodes generalizing before place with
  | nil => rfl
  | cons node rest ih =>
    rw [List.all_cons, Bool.and_eq_true] at quiet
    have noGroup : collectGroup bindings debug (node.token place) = [] := by
      cases node with
      | word _ _ | sign _ _ => rfl
      | literal _ _ | group _ _ _ => simp [Node.quiet] at quiet
    rw [nodeTokens_cons, List.cons_append, collect_stuck noGroup (links_quiet quiet.2 _ stuck), ih quiet.2]
    simp

theorem collect_turbofish (before : List TokenTree) (types : List TypeArg) (place : Nat) (after : List TokenTree) :
    collect bindings debug before (nodeTokens (turbofish types) place ++ after) =
      collect bindings debug ((nodeTokens (turbofish types) place).reverse ++ before) after := by
  rcases turbofish_quiet types with none | ⟨front, shape, quiet⟩
  · rw [none]; rfl
  · have stuck (span : Span) : links (.punct '>' span :: after) = 0 := links_punct (by decide) span after
    rw [shape, nodeTokens_append, List.append_assoc]
    exact ((collect_quiet quiet before place (stuck _)).trans (collect_plain after rfl (.inr rfl))).trans (by simp; rfl)

/-- What can follow an expression: a field is not called, and nothing belongs to an operation. -/
structure Follows (expr : Expr) (after : List TokenTree) : Prop where
  field : expr.isField = true → startsParenthesis after = false
  operation : expr.isOperation = true → links after = 0 ∧ startsParenthesis after = false

theorem follows_stuck (expr : Expr) {after : List TokenTree} (stuck : links after = 0)
    (noCall : startsParenthesis after = false) : Follows expr after := ⟨fun _ => noCall, fun _ => ⟨stuck, noCall⟩⟩

theorem follows_object {object : Expr} (tight : object.isOperation = false) {after : List TokenTree}
    (noCall : startsParenthesis after = false) : Follows object after :=
  ⟨fun _ => noCall, fun operation => absurd operation (by simp [tight])⟩

theorem follows_callee {callee : Expr} (tight : callee.isOperation = false) (noField : callee.isField = false)
    (after : List TokenTree) : Follows callee after :=
  ⟨fun field => absurd field (by simp [noField]), fun operation => absurd operation (by simp [tight])⟩

theorem collect_operator (noMut : "mut" ∉ bindings) (before : List TokenTree) (op : UnaryOp) (place : Nat)
    (after : List TokenTree) : collect bindings debug before (nodeTokens op.nodes place ++ after) =
      collect bindings debug ((nodeTokens op.nodes place).reverse ++ before) after := by
  have unbound (place : Nat) : root bindings ((Node.word false mutWord).token place) = false := by
    simp [Node.token, mutWord, root, noMut]
  cases op with
  | refMut =>
    rw [UnaryOp.nodes, nodeTokens_cons, List.cons_append, collect_plain _ rfl (.inr rfl), nodeTokens_cons, List.cons_append,
      collect_plain _ rfl (.inr (unbound _))]
    rfl
  | rangeTo => exact (collect_plain _ rfl (.inr rfl)).trans (collect_plain _ rfl (.inr rfl))
  | _ => exact collect_plain _ rfl (.inr rfl)

theorem collect_signs (before : List TokenTree) (op : BinaryOp) (place : Nat) (after : List TokenTree) :
    collect bindings debug before (nodeTokens op.nodes place ++ after) =
      collect bindings debug ((nodeTokens op.nodes place).reverse ++ before) after := by
  have step (before : List TokenTree) (c : Char) (span : Span) (rest : List TokenTree) :
      collect bindings debug before (.punct c span :: rest) = collect bindings debug (.punct c span :: before) rest :=
    collect_plain rest rfl (.inr rfl)
  generalize shape : op.nodes = nodes
  have signs : ∀ node ∈ nodes, ∃ gap mark, node = .sign gap mark := by
    subst shape
    intro node inside
    rcases List.mem_cons.mp inside with rfl | behind
    · exact ⟨_, _, rfl⟩
    · obtain ⟨mark, _, rfl⟩ := List.mem_map.mp behind
      exact ⟨_, _, rfl⟩
  clear shape
  induction nodes generalizing before place with
  | nil => rfl
  | cons node rest ih =>
    obtain ⟨gap, mark, rfl⟩ := signs node List.mem_cons_self
    rw [nodeTokens_cons, List.cons_append, Node.token, step, ih _ _ fun next inside => signs next (List.mem_cons_of_mem _ inside)]
    simp

theorem collect_group {before after : List TokenTree} {delimiter : Delimiter} {nodes : List Node} {place : Nat}
    {inner : List Piece} {taken : Bool}
    (known : (!isMemberPlace before && root bindings ((Node.group false delimiter nodes).token place)) = taken)
    (same : (collect bindings debug [] (nodeTokens nodes (place + 1))).Perm (edits (place + 1) inner)) :
    (collect bindings debug before ((Node.group false delimiter nodes).token place :: after)).Perm
      (edits place (groupPieces delimiter inner) ++ ((if taken = true then continued debug after else []) ++
        collect bindings debug ((Node.group false delimiter nodes).token place :: before) after)) := by
  have same' : (if isMemberPlace before = false ∧ root bindings ((Node.group false delimiter nodes).token place) = true
      then continued debug after else []) = if taken = true then continued debug after else [] := by
    subst known
    cases isMemberPlace before <;> simp
  rw [collect_cons, edits_group, same']
  exact same.append_right _

theorem root_items {items : List Expr} (comma : Bool) (valid : ValidItems items) (place : Nat) :
    root bindings ((Node.group false .parenthesis (itemNodes items comma)).token place) = single bindings items comma := by
  rw [Bool.eq_iff_iff, ← chainEnd_items bindings items comma valid (place + 1)]
  simp [Node.token, root, itemTokens]

theorem root_list {items : List Expr} (shaded : Bool) (delimiter : Delimiter) (comma : Bool) (valid : ValidItems items)
    (place : Nat) : (!shaded && root bindings ((Node.group false delimiter (itemNodes items comma)).token place)) =
      (Expr.list delimiter items comma).taken bindings shaded := by
  cases delimiter with
  | parenthesis => rw [root_items comma valid, Expr.taken]
  | _ => rw [Expr.taken] <;> first | (cases shaded <;> rfl) | simp

theorem taken_macro (first : Ident) (rest : List Ident) (shaded : Bool) (delimiter : Delimiter) (args : List Expr)
    (comma : Bool) : (Expr.list delimiter args comma).taken bindings false =
      (Expr.macroCall first rest delimiter args comma).taken bindings shaded := by
  cases delimiter <;> simp [Expr.taken]

/-- Replacements behind an index come after those inside it. -/
theorem inside_first (a b c d : List Replacement) : (a ++ (b ++ (c ++ d))).Perm ((a ++ c) ++ (b ++ d)) := by
  rw [List.append_assoc]
  exact (List.perm_append_comm_assoc b c d).append_left a

mutual

/-- The replacements in the tokens of an expression are those of its members. -/
theorem collect_tokens (noMut : "mut" ∉ bindings) (expr : Expr) (valid : expr.Valid) (place : Nat) (shaded : Bool)
    (before after : List TokenTree) (off : isMemberPlace before = shaded) (follows : Follows expr after) :
    (collect bindings debug before (expr.tokens place ++ after)).Perm
      (edits place (expr.pieces debug (Expr.taken bindings) (Expr.taken bindings) shaded) ++
        ((if expr.taken bindings shaded = true then continued debug after else []) ++
          collect bindings debug ((expr.tokens place).reverse ++ before) after)) := by
  match expr with
  | .ident name =>
    rw [Expr.tokens, Expr.nodes, nodeTokens_cons, nodeTokens_nil, List.singleton_append, collect_cons, off]
    cases shaded <;> simp [collectGroup, Node.token, root, Expr.pieces, edits, Expr.taken]
  | .path first second rest types =>
    have stuck : links (nodeTokens (pathNodes (second :: rest) ++ turbofish types)
        (place + byteLength (Node.word false first.toWord).print) ++ after) = 0 := links_punct (by decide) _ _
    rw [Expr.tokens, Expr.nodes, nodeTokens_cons, List.cons_append, collect_stuck rfl stuck, nodeTokens_append,
      List.append_assoc, collect_path, collect_turbofish]
    simp [Expr.pieces, edits, Expr.taken]
  | .literal value =>
    rw [Expr.tokens, Expr.nodes, nodeTokens_cons, nodeTokens_nil, List.singleton_append, collect_plain _ rfl (.inr rfl)]
    simp [Expr.pieces, edits, Expr.taken]
  | .entry key value =>
    have ih := collect_tokens noMut value valid (place + byteLength key.chars + 2) false
      (.punct ':' ⟨place + byteLength key.chars, place + byteLength key.chars + 1⟩ ::
        .literal ⟨place, place + byteLength key.chars⟩ :: before) after rfl
      (follows_stuck value (follows.operation rfl).1 (follows.operation rfl).2)
    have width : byteLength (key.chars ++ [':', ' ']) = byteLength key.chars + 2 := byteLength_append _ _
    rw [continued_stuck (follows.operation rfl).1] at ih ⊢
    rw [tokens_entry, List.cons_append, collect_plain _ rfl (.inr rfl), List.cons_append, collect_plain _ rfl (.inr rfl)]
    refine ih.trans ?_
    simp [Expr.pieces, width, Nat.add_assoc]
  | .field object name =>
    have ih := collect_tokens noMut object valid.2 place shaded before
      (nodeTokens (memberNodes name) (place + byteLength object.print) ++ after) off (follows_object valid.1 rfl)
    rw [tokens_field, List.append_assoc]
    refine ih.trans ?_
    rw [collect_member, continued_member name _ (follows.field rfl), Expr.pieces, edits_append, olds_pieces, Expr.taken]
    by_cases taken : object.taken bindings shaded = true
    · simp [taken]
    · simp [taken, memberPiece, edits]
  | .index object inner =>
    have same := collect_tokens noMut inner valid.2.2 (place + byteLength object.print + 1) false [] [] rfl
      (follows_stuck inner rfl rfl)
    rw [List.append_nil, continued_stuck rfl, ite_self, List.nil_append, collect, List.append_nil] at same
    have group := @collect_group bindings debug ((object.tokens place).reverse ++ before) after .bracket inner.nodes
      (place + byteLength object.print) _ false (Bool.and_false _) same
    have ih := collect_tokens noMut object valid.2.1 place shaded before
      ((Node.group false .bracket inner.nodes).token (place + byteLength object.print) :: after) off
      (follows_object valid.1 rfl)
    rw [tokens_index, List.append_assoc, List.singleton_append, Expr.pieces, edits_append, olds_pieces, Expr.taken]
    refine (ih.trans ((group.append_left _).append_left _)).trans ?_
    simp only [continued_bracket, Bool.false_eq_true, if_false, List.nil_append, List.reverse_append, List.reverse_singleton,
      List.singleton_append]
    exact inside_first _ _ _ _
  | .call callee args comma =>
    have same := collect_items noMut args comma valid.2.2.2 (place + byteLength callee.print + 1) [] rfl
    have group := @collect_group bindings debug ((callee.tokens place).reverse ++ before) after .parenthesis
      (itemNodes args comma) (place + byteLength callee.print) _ (single bindings args comma)
      (by rw [isMemberPlace_tokens, root_items comma valid.2.2.2]; rfl) same
    have ih := collect_tokens noMut callee valid.2.2.1 place shaded before
      ((Node.group false .parenthesis (itemNodes args comma)).token (place + byteLength callee.print) :: after) off
      (follows_callee valid.1 valid.2.1 _)
    rw [continued_stuck rfl, ite_self, List.nil_append] at ih
    rw [tokens_call, List.append_assoc, List.singleton_append, Expr.pieces, edits_append, olds_pieces, Expr.taken]
    refine (ih.trans (group.append_left _)).trans ?_
    simp
  | .method object name types args comma =>
    have same := collect_items noMut args comma valid.2.2 (place + byteLength object.print + byteLength ('.' :: name.chars) +
      byteLength (printNodes (turbofish types)) + 1) [] rfl
    have behind : isMemberPlace ((nodeTokens (turbofish types) (place + byteLength object.print +
        byteLength ('.' :: name.chars))).reverse ++ ((nodeTokens (memberNodes name) (place + byteLength object.print)).reverse ++
          ((object.tokens place).reverse ++ before))) = false := by
      have closed := closed_turbofish (closed_cons (.sign false .dot) (@closed_single (.word false name.toWord) rfl)) types
      have known := isMemberPlace_closed closed (place + byteLength object.print) ((object.tokens place).reverse ++ before)
      have member : printNodes [.sign false .dot, .word false name.toWord] = '.' :: name.chars := print_member name
      rw [nodeTokens_append, List.reverse_append, List.append_assoc, member] at known
      exact known
    have group := @collect_group bindings debug _ after .parenthesis (itemNodes args comma)
      (place + byteLength object.print + byteLength ('.' :: name.chars) + byteLength (printNodes (turbofish types))) _
      (single bindings args comma) (by rw [behind, root_items comma valid.2.2]; rfl) same
    have ih := collect_tokens noMut object valid.2.1 place shaded before
      (nodeTokens (memberNodes name) (place + byteLength object.print) ++
        (nodeTokens (turbofish types) (place + byteLength object.print + byteLength ('.' :: name.chars)) ++
          ((Node.group false .parenthesis (itemNodes args comma)).token (place + byteLength object.print +
            byteLength ('.' :: name.chars) + byteLength (printNodes (turbofish types))) :: after)))
      off (follows_object valid.1 rfl)
    rw [continued_method, collect_member, collect_turbofish] at ih
    rw [tokens_method, List.append_assoc, List.append_assoc, List.append_assoc, List.singleton_append, Expr.pieces,
      edits_append, olds_pieces, Expr.taken]
    refine (ih.trans ((group.append_left _).append_left _)).trans ?_
    by_cases taken : object.taken bindings shaded = true
    · cases types <;> simp [taken, memberPiece, edits]
    · simp [taken, memberPiece, edits]
  | .macroCall first rest delimiter args comma =>
    have same := collect_items noMut args comma valid (place + byteLength (pathText first rest) + 1 + 1) [] rfl
    have group := @collect_group bindings debug (.punct '!' ⟨place + byteLength (pathText first rest),
        place + byteLength (pathText first rest) + 1⟩ :: ((nodeTokens (pathNodes rest) (place + byteLength first.chars)).reverse
        ++ ((Node.word false first.toWord).token place :: before))) after delimiter (itemNodes args comma)
        (place + byteLength (pathText first rest) + 1) _ _ (by
          rw [isMemberPlace_mark, root_list false delimiter comma valid, taken_macro first rest shaded]) same
    have mark : Char.utf8Size '!' = 1 := by decide
    have stuck (others : List TokenTree) (span : Span) :
        links (nodeTokens (pathNodes rest) (place + byteLength first.chars) ++ .punct '!' span :: others) = 0 := by
      cases rest <;> exact links_punct (by decide) _ _
    rw [tokens_macroCall, List.cons_append, List.append_assoc, List.cons_append, collect_stuck rfl (stuck _ _),
      collect_path, collect_plain _ rfl (.inr rfl), List.singleton_append, Expr.pieces, edits_kept]
    simpa [mark, Nat.add_assoc] using group
  | .unary op operand =>
    have ih := collect_tokens noMut operand valid (place + byteLength op.chars) (op == .rangeTo)
      ((nodeTokens op.nodes place).reverse ++ before) after (operator_place op place before)
      (follows_stuck operand (follows.operation rfl).1 (follows.operation rfl).2)
    rw [continued_stuck (follows.operation rfl).1] at ih ⊢
    rw [tokens_unary, List.append_assoc, collect_operator noMut]
    refine ih.trans ?_
    simp [Expr.pieces]
  | .binary op left right =>
    obtain ⟨token, others, shape, stuck, noCall⟩ := op_stuck op (place + byteLength left.print)
      (right.tokens (place + byteLength left.print + byteLength op.chars + 1) ++ after)
    have first := collect_tokens noMut left valid.1 place shaded before (token :: others) off
      (follows_stuck left stuck noCall)
    have second := collect_tokens noMut right valid.2 (place + byteLength left.print + byteLength op.chars + 1)
      (op == .range) ((nodeTokens op.nodes (place + byteLength left.print)).reverse ++ ((left.tokens place).reverse ++ before))
      after (sign_place op _ _) (follows_stuck right (follows.operation rfl).1 (follows.operation rfl).2)
    have narrow : Char.utf8Size ' ' = 1 := by decide
    rw [continued_stuck stuck, ite_self, List.nil_append, ← shape, collect_signs] at first
    rw [continued_stuck (follows.operation rfl).1, ite_self, List.nil_append] at second ⊢
    rw [tokens_binary, List.append_assoc, List.append_assoc, Expr.pieces, edits_append, olds_pieces]
    refine (first.trans (second.append_left _)).trans ?_
    simp [narrow, Nat.add_assoc]
  | .question operand =>
    have ih := collect_tokens noMut operand valid.2 place shaded before
      (.punct '?' ⟨place + byteLength operand.print, place + byteLength operand.print + 1⟩ :: after) off
      (follows_object valid.1 rfl)
    rw [continued_stuck (links_punct (by decide) _ _), ite_self, List.nil_append, collect_plain _ rfl (.inr rfl)] at ih
    rw [tokens_question, List.append_assoc, List.singleton_append, Expr.pieces, edits_append, olds_pieces]
    refine ih.trans ?_
    simp [edits, Expr.taken]
  | .list delimiter items comma =>
    have same := collect_items noMut items comma valid (place + 1) [] rfl
    have known := (@root_list bindings items shaded delimiter comma valid place)
    rw [← off] at known
    have group := @collect_group bindings debug before after delimiter (itemNodes items comma) place _ _ known same
    rw [off] at group
    simpa [Expr.pieces, Expr.tokens, Expr.nodes] using group

theorem collect_items (noMut : "mut" ∉ bindings) (items : List Expr) (comma : Bool) (valid : ValidItems items) (place : Nat)
    (before : List TokenTree) (off : isMemberPlace before = false) :
    (collect bindings debug before (itemTokens items comma place)).Perm
      (edits place (itemPieces debug (Expr.taken bindings) (Expr.taken bindings) items comma)) := by
  match items with
  | [] => exact .refl _
  | item :: rest =>
    have later := collect_items noMut rest comma valid.2
      (place + byteLength item.print + byteLength (separator rest comma))
      (.punct ',' ⟨place + byteLength item.print, place + byteLength item.print + 1⟩ :: ((item.tokens place).reverse ++ before))
      (isMemberPlace_comma _ _)
    rw [itemTokens_cons, itemPieces, edits_append, olds_pieces, edits_kept]
    by_cases last : (rest.isEmpty && !comma) = true
    · have here := collect_tokens noMut item valid.1 place false before [] off (follows_stuck item rfl rfl)
      have stuck : continued debug [] = [] := continued_stuck rfl
      have none : rest = [] := List.isEmpty_iff.mp (Bool.and_eq_true _ _ |>.mp last).1
      rw [separatorNodes, if_pos last, none]
      simpa [itemTokens, itemNodes, itemPieces, edits, stuck, collect] using here
    · have here := collect_tokens noMut item valid.1 place false before
        (.punct ',' ⟨place + byteLength item.print, place + byteLength item.print + 1⟩ :: itemTokens rest comma
          (place + byteLength item.print + byteLength (separator rest comma))) off
        (follows_stuck item (links_punct (by decide) _ _) rfl)
      rw [continued_stuck (links_punct (by decide) _ _), ite_self, List.nil_append, collect_plain _ rfl (.inr rfl)] at here
      rw [separatorNodes, if_neg last]
      exact here.trans (later.append_left _)

end

end Collecting

section Unbound

variable (debug : String → Literal)

mutual

theorem root_nil (token : TokenTree) : root [] token = false := by
  match token with
  | .ident _ _ | .punct _ _ | .literal _ | .group .bracket _ _ _ | .group .brace _ _ _ => rfl
  | .group .parenthesis stream _ _ => rw [root, chainEnd_nil stream]; rfl

theorem chainEnd_nil (stream : List TokenTree) : chainEnd [] stream = none := by
  match stream with
  | [] => rfl
  | token :: rest => rw [chainEnd, root_nil token]; rfl

end

mutual

theorem collect_nil (before stream : List TokenTree) : collect [] debug before stream = [] := by
  match stream with
  | [] => rfl
  | token :: rest =>
    rw [collect_cons, collectGroup_nil token, root_nil, collect_nil (token :: before) rest]
    simp

theorem collectGroup_nil (token : TokenTree) : collectGroup [] debug token = [] := by
  match token with
  | .ident _ _ | .punct _ _ | .literal _ => rfl
  | .group _ stream _ _ => rw [collectGroup, collect_nil [] stream]

end

end Unbound

section Difference

variable {bindings : List String} (debug : String → Literal)

/-- The parts of an expression's text as the code reads it. -/
def readPieces (bindings : List String) (shaded : Bool) (expr : Expr) : List Piece :=
  expr.pieces debug (Expr.taken bindings) (Expr.taken bindings) shaded

/-- The parts of an expression's text with the members of bound values. -/
def meantPieces (bindings : List String) (shaded : Bool) (expr : Expr) : List Piece :=
  expr.pieces debug (fun _ object => object.reached bindings) (fun _ _ => false) shaded

theorem separator_indexed (items : List Expr) (comma : Bool) :
    separator (indexedItems bindings debug items) comma = separator items comma := by
  cases items <;> rfl

mutual

theorem news_meant (shaded : Bool) (expr : Expr) :
    news (expr.pieces debug (fun _ object => object.reached bindings) (fun _ _ => false) shaded) =
      (expr.indexed bindings debug).print := by
  match expr with
  | .ident _ | .path _ _ _ _ | .literal _ => simp [Expr.pieces, Expr.indexed]
  | .entry _ value => simp [Expr.pieces, Expr.indexed, news_meant false value]
  | .field object name =>
    rw [Expr.pieces, news_append, news_meant shaded object, Expr.indexed]
    by_cases reached : object.reached bindings = true
    · simp [reached, memberPiece, indexText, member, Ident.chars, Word.chars]
    · simp [reached, memberPiece]
  | .index object place => simp [Expr.pieces, Expr.indexed, news_group, news_meant shaded object, news_meant false place]
  | .call callee args comma => simp [Expr.pieces, Expr.indexed, news_group, news_meant shaded callee, news_items args comma]
  | .method object name types args comma =>
    simp [Expr.pieces, Expr.indexed, memberPiece, news_group, news_meant shaded object, news_items args comma]
  | .macroCall _ _ _ args comma => simp [Expr.pieces, Expr.indexed, news_group, news_items args comma]
  | .unary op operand => simp [Expr.pieces, Expr.indexed, news_meant (op == .rangeTo) operand]
  | .binary op left right => simp [Expr.pieces, Expr.indexed, news_meant shaded left, news_meant (op == .range) right]
  | .question operand => simp [Expr.pieces, Expr.indexed, news_meant shaded operand]
  | .list _ items comma => simp [Expr.pieces, Expr.indexed, news_group, news_items items comma]

theorem news_items (items : List Expr) (comma : Bool) :
    news (itemPieces debug (fun _ object => object.reached bindings) (fun _ _ => false) items comma) =
      printItems (indexedItems bindings debug items) comma := by
  match items with
  | [] => rfl
  | item :: rest => simp [itemPieces, indexedItems, separator_indexed, news_meant false item, news_items rest comma]

end

/-- A member and an index begin with different letters. -/
theorem memberPiece_inj {a b : Bool} {name : Ident} {x y : List Char}
    (same : (memberPiece debug a name).new ++ x = (memberPiece debug b name).new ++ y) : a = b ∧ x = y := by
  cases a <;> cases b
  · exact ⟨rfl, List.append_cancel_left same⟩
  · exact absurd (List.cons.inj same).1 (by decide)
  · exact absurd (List.cons.inj same).1 (by decide)
  · exact ⟨rfl, List.append_cancel_left same⟩

theorem group_inj {delimiter : Delimiter} {a b : List Piece} {x y : List Char} {P : Prop}
    (inner : ∀ x y, news a ++ x = news b ++ y → P ∧ x = y)
    (same : news (groupPieces delimiter a) ++ x = news (groupPieces delimiter b) ++ y) : P ∧ x = y := by
  rw [news_group, news_group, enclose, enclose, List.cons_append, List.cons_append, List.append_assoc,
    List.append_assoc] at same
  obtain ⟨known, rest⟩ := inner _ _ (List.cons.inj same).2
  exact ⟨known, (List.cons.inj rest).2⟩

mutual

/-- Equal texts come from equal readings. -/
theorem misread_of_same (shaded : Bool) (expr : Expr) (x y : List Char)
    (same : news (readPieces debug bindings shaded expr) ++ x = news (meantPieces debug bindings shaded expr) ++ y) :
    expr.misread bindings shaded = false ∧ x = y := by
  match expr with
  | .ident _ | .path _ _ _ _ | .literal _ => exact ⟨rfl, List.append_cancel_left same⟩
  | .entry _ value =>
    simp only [readPieces, meantPieces, Expr.pieces, news_cons, List.append_assoc] at same
    exact misread_of_same false value x y (List.append_cancel_left same)
  | .field object name =>
    simp only [readPieces, meantPieces, Expr.pieces, news_append, news_cons, news_nil, List.append_assoc,
      List.append_nil] at same
    obtain ⟨inner, rest⟩ := misread_of_same shaded object _ _ same
    obtain ⟨here, last⟩ := memberPiece_inj debug rest
    rw [Expr.misread, inner, here, bne_self_eq_false, Bool.or_false]
    exact ⟨rfl, last⟩
  | .index object place =>
    simp only [readPieces, meantPieces, Expr.pieces, news_append, List.append_assoc] at same
    obtain ⟨first, rest⟩ := misread_of_same shaded object _ _ same
    obtain ⟨second, last⟩ := group_inj (misread_of_same false place) rest
    rw [Expr.misread, first, second]
    exact ⟨rfl, last⟩
  | .call callee args comma =>
    simp only [readPieces, meantPieces, Expr.pieces, news_append, List.append_assoc] at same
    obtain ⟨first, rest⟩ := misread_of_same shaded callee _ _ same
    obtain ⟨second, last⟩ := group_inj (misread_of_items args comma) rest
    rw [Expr.misread, first, second]
    exact ⟨rfl, last⟩
  | .method object name types args comma =>
    simp only [readPieces, meantPieces, Expr.pieces, news_append, news_cons, List.append_assoc, Bool.and_false] at same
    obtain ⟨first, behind⟩ := misread_of_same shaded object _ _ same
    obtain ⟨here, rest⟩ := memberPiece_inj debug behind
    obtain ⟨second, last⟩ := group_inj (misread_of_items args comma) (List.append_cancel_left rest)
    rw [Expr.misread, here, first, second]
    exact ⟨rfl, last⟩
  | .macroCall _ _ _ args comma =>
    simp only [readPieces, meantPieces, Expr.pieces, news_cons, List.append_assoc] at same
    exact group_inj (misread_of_items args comma) (List.append_cancel_left same)
  | .unary op operand =>
    simp only [readPieces, meantPieces, Expr.pieces, news_cons, List.append_assoc] at same
    exact misread_of_same (op == .rangeTo) operand x y (List.append_cancel_left same)
  | .binary op left right =>
    simp only [readPieces, meantPieces, Expr.pieces, news_append, news_cons, List.append_assoc] at same
    obtain ⟨first, rest⟩ := misread_of_same shaded left _ _ same
    obtain ⟨second, last⟩ := misread_of_same (op == .range) right x y (List.append_cancel_left rest)
    rw [Expr.misread, first, second]
    exact ⟨rfl, last⟩
  | .question operand =>
    simp only [readPieces, meantPieces, Expr.pieces, news_append, List.append_assoc] at same
    obtain ⟨inner, rest⟩ := misread_of_same shaded operand _ _ same
    exact ⟨inner, List.append_cancel_left rest⟩
  | .list _ items comma => exact group_inj (misread_of_items items comma) same

theorem misread_of_items (items : List Expr) (comma : Bool) (x y : List Char)
    (same : news (itemPieces debug (Expr.taken bindings) (Expr.taken bindings) items comma) ++ x =
      news (itemPieces debug (fun _ object => object.reached bindings) (fun _ _ => false) items comma) ++ y) :
    misreadItems bindings items = false ∧ x = y := by
  match items with
  | [] => exact ⟨rfl, same⟩
  | item :: rest =>
    simp only [itemPieces, news_append, news_cons, List.append_assoc] at same
    obtain ⟨first, behind⟩ := misread_of_same false item _ _ same
    obtain ⟨second, last⟩ := misread_of_items rest comma x y (List.append_cancel_left behind)
    rw [misreadItems, first, second]
    exact ⟨rfl, last⟩

end

mutual

/-- Without a misread member, the code changes what it should. -/
theorem same_of_read (shaded : Bool) (expr : Expr) (read : expr.misread bindings shaded = false) :
    readPieces debug bindings shaded expr = meantPieces debug bindings shaded expr := by
  simp only [readPieces, meantPieces]
  match expr with
  | .ident _ | .path _ _ _ _ | .literal _ => rfl
  | .entry _ value => exact congrArg (_ :: ·) (same_of_read false value read)
  | .field object name =>
    rw [Expr.misread, Bool.or_eq_false_iff, bne_eq_false_iff_eq] at read
    rw [Expr.pieces, Expr.pieces, read.1]
    exact congrArg (· ++ _) (same_of_read shaded object read.2)
  | .index object place =>
    rw [Expr.misread, Bool.or_eq_false_iff] at read
    have first := same_of_read shaded object read.1
    have second := same_of_read false place read.2
    simp only [readPieces, meantPieces] at first second
    simp only [Expr.pieces, first, second]
  | .call callee args comma =>
    rw [Expr.misread, Bool.or_eq_false_iff] at read
    have first := same_of_read shaded callee read.1
    simp only [readPieces, meantPieces] at first
    simp only [Expr.pieces, first, same_items args comma read.2]
  | .method object name types args comma =>
    rw [Expr.misread, Bool.or_eq_false_iff, Bool.or_eq_false_iff] at read
    have first := same_of_read shaded object read.2.1
    simp only [readPieces, meantPieces] at first
    simp only [Expr.pieces, first, same_items args comma read.2.2, read.1, Bool.and_false]
  | .macroCall _ _ _ args comma => simp only [Expr.pieces, same_items args comma read]
  | .unary op operand =>
    have inner := same_of_read (op == .rangeTo) operand read
    simp only [readPieces, meantPieces] at inner
    simp only [Expr.pieces, inner]
  | .binary op left right =>
    rw [Expr.misread, Bool.or_eq_false_iff] at read
    have first := same_of_read shaded left read.1
    have second := same_of_read (op == .range) right read.2
    simp only [readPieces, meantPieces] at first second
    simp only [Expr.pieces, first, second]
  | .question operand => exact congrArg (· ++ _) (same_of_read shaded operand read)
  | .list _ items comma => simp only [Expr.pieces, same_items items comma read]

theorem same_items (items : List Expr) (comma : Bool) (read : misreadItems bindings items = false) :
    itemPieces debug (Expr.taken bindings) (Expr.taken bindings) items comma =
      itemPieces debug (fun _ object => object.reached bindings) (fun _ _ => false) items comma := by
  match items with
  | [] => rfl
  | item :: rest =>
    rw [misreadItems, Bool.or_eq_false_iff] at read
    have first := same_of_read false item read.1
    simp only [readPieces, meantPieces] at first
    simp only [itemPieces, first, same_items rest comma read.2]

end

end Difference

section Results

variable {tokenize : List Char → Option (List TokenTree)} {debug : String → Literal}

theorem names_noMut (names : List Ident) : "mut" ∉ names.map fun name => name.text := by
  intro inside
  obtain ⟨name, _, same⟩ := List.mem_map.mp inside
  exact name.noKeyword same

/-- What the code makes of an expression: every member of what it takes for a bound value is an index. -/
theorem rewriteMembers_tokens (names : List Ident) (tree : ExprTree)
    (lexed : tokenize tree.expr.print = some (tree.expr.tokens 0)) :
    rewriteMembers (names.map fun name => name.text) debug tokenize tree.expr.print =
      some (news (readPieces debug (names.map fun name => name.text) false tree.expr)) := by
  have perm := @collect_tokens (names.map fun name => name.text) debug (names_noMut names) tree.expr tree.valid 0 false [] []
    rfl (follows_stuck tree.expr rfl rfl)
  rw [List.append_nil, continued_stuck rfl, ite_self, List.nil_append, collect, List.append_nil] at perm
  have spliced := splice_pieces (solid_pieces debug _ _ false tree.expr) perm
  rw [olds_pieces] at spliced
  cases names with
  | nil =>
    rw [List.map_nil, collect_nil] at spliced
    rw [List.map_nil, readPieces, ← spliced]
    simp [rewriteMembers, splice, spliceFrom, dropBytes]
  | cons name rest =>
    rw [rewriteMembers, lexed]
    exact spliced

/-- The code rewrites exactly the members of bound values if and only if nothing is misread. -/
theorem rewriteMembers_iff (names : List Ident) (tree : ExprTree)
    (lexed : tokenize tree.expr.print = some (tree.expr.tokens 0)) :
    rewriteMembers (names.map fun name => name.text) debug tokenize tree.expr.print =
        some (tree.expr.indexed (names.map fun name => name.text) debug).print ↔
      tree.expr.misread (names.map fun name => name.text) false = false := by
  rw [rewriteMembers_tokens names tree lexed, ← news_meant debug false tree.expr]
  constructor
  · intro same
    exact (misread_of_same debug false tree.expr [] [] (by
      rw [List.append_nil, List.append_nil]
      exact Option.some.inj same)).1
  · intro read
    rw [same_of_read debug false tree.expr read]
    rfl

/-- A piece of code is an alias of a JSON value exactly when it is one that the bindings reach. -/
theorem isJsonAlias_iff (bindings : List String) (tree : ExprTree)
    (lexed : tokenize tree.expr.print = some (tree.expr.tokens 0)) :
    isJsonAlias bindings tokenize tree.expr.print = true ↔ tree.expr.reached bindings = true := by
  have whole := chainEnd_tokens bindings tree.expr tree.valid 0 [] fun _ => rfl
  rw [List.append_nil] at whole
  simp only [isJsonAlias, lexed, decide_eq_true_eq, whole]
  exact and_iff_left rfl

end Results

section Examples

def named (text : String) (present : text.toList ≠ []) (solid : ∀ c ∈ text.toList, Text.isWhitespace c = false)
    (noKeyword : text ≠ "mut") : Ident := ⟨⟨text, present, solid⟩, noKeyword⟩

def prepared : Ident := named "prepared" (by decide) (by decide) (by decide)

def body : Ident := named "body" (by decide) (by decide) (by decide)

def load : Ident := named "load" (by decide) (by decide) (by decide)

/-- Debug output of a name that needs no escapes. -/
def quoted (name : String) : Literal :=
  ⟨'"' :: (name.toList ++ ['"']), Text.firm_wrapped name.toList (by decide) (by decide)⟩

/-- `load((prepared.body), prepared).body` -/
def memberArgument : ExprTree :=
  ⟨.field (.call (.ident load) [.paren (.field (.ident prepared) body), .ident prepared] false) body, by
    simp [Expr.Valid, ValidItems, Expr.paren, Expr.isOperation, Expr.isField]⟩

/-- `load(prepared).body` -/
def memberOfCall : ExprTree :=
  ⟨.field (.call (.ident load) [.ident prepared] false) body, by
    simp [Expr.Valid, ValidItems, Expr.isOperation, Expr.isField]⟩

theorem member_argument_rewritten :
    rewriteMembers ["prepared"] quoted (fun _ => some (memberArgument.expr.tokens 0)) memberArgument.expr.print =
      some (memberArgument.expr.indexed ["prepared"] quoted).print :=
  (rewriteMembers_iff [prepared] memberArgument rfl).mpr (by decide +kernel)

/-- The member of the function's result becomes an index. -/
theorem call_result_rewritten :
    rewriteMembers ["prepared"] quoted (fun _ => some (memberOfCall.expr.tokens 0)) memberOfCall.expr.print ≠
      some (memberOfCall.expr.indexed ["prepared"] quoted).print := by
  have made := @rewriteMembers_tokens (fun _ => some (memberOfCall.expr.tokens 0)) quoted [prepared] memberOfCall rfl
  have names : [prepared].map (fun name => name.text) = ["prepared"] := rfl
  rw [names] at made
  rw [made]
  decide +kernel

end Examples

end Axonyx.Core.Rust
