import Axonyx.Core.BackendModule
import Axonyx.Core.RustTokens

/-! Calls of declared helpers in Rust code: `rewrite_calls` passes the arguments as the parameters
say and hands errors on. Its byte positions are taken away: what it does is told on nodes. -/
namespace Axonyx.Core.Rust

open Axonyx.Edits
open Axonyx.Core.Backend

variable {Code Step : Type}

section Rewriter

variable (functions : List (AxFunctionPlan Code Step)) (records : List String)

/-- The declared function that a token names, if it is no member and no part of a path. -/
def namedFunction (before : List TokenTree) : TokenTree → Option (AxFunctionPlan Code Step)
  | .ident name _ => if isMemberPlace before then none else functions.find? fun function => name = function.name
  | _ => none

def TokenTree.start : TokenTree → Nat
  | .ident _ span | .punct _ span | .literal span => span.start
  | .group _ _ spanOpen _ => spanOpen.start

def TokenTree.stop : TokenTree → Nat
  | .ident _ span | .punct _ span | .literal span => span.stop
  | .group _ _ _ spanClose => spanClose.stop

/-- The ranges in front of the commas, and where the rest begins. -/
def argumentRanges : List TokenTree → Nat → List (Nat × Nat) × Nat
  | [], start => ([], start)
  | token :: rest, start =>
    if isComma token then
      let (ranges, last) := argumentRanges rest token.stop
      ((start, token.start) :: ranges, last)
    else argumentRanges rest start

/-- The texts of the arguments; a blank one at the end is none. -/
def argumentTexts (code : List Char) (stream : List TokenTree) (start stop : Nat) : List (List Char) :=
  let (ranges, last) := argumentRanges stream start
  let ranges := if (Text.trimChars (slice code last stop)).isEmpty then ranges else ranges ++ [(last, stop)]
  ranges.map fun range => Text.trimChars (slice code range.1 range.2)

/-- An argument in the passing mode of its parameter. -/
def passText (field : AxFieldPlan Code) (arg : List Char) : List Char :=
  if field.rustTy ∈ records then ['&', '('] ++ arg ++ [')']
  else if field.rustTy ∈ ["bool", "i32", "i64", "u32", "u64", "f32", "f64"] then arg
  else ['('] ++ arg ++ ").clone()".toList

def calledText (function : AxFunctionPlan Code Step) (args : List (List Char)) : List Char :=
  function.name.toList ++ ['('] ++ [',', ' '].intercalate args ++ [')', '?']

variable (rewrite : List Char → Option (List Char))

def callText (code : List Char) (function : AxFunctionPlan Code Step) (stream : List TokenTree) (start stop : Nat) :
    Option (List Char) :=
  let texts := argumentTexts code stream start stop
  if texts.length ≠ function.input.length then none
  else do
    let args ← (texts.zip function.input).mapM fun (text, field) => do
      let arg ← rewrite text
      return passText records field arg
    return calledText function args

mutual

/-- `collect` behind the tokens `before`, the nearest of them first. -/
def collectCalls (code : List Char) (before : List TokenTree) : List TokenTree → Option (List Replacement)
  | [] => some []
  | token :: .group .parenthesis stream spanOpen spanClose :: rest =>
    match namedFunction functions before token with
    | some function => do
      let text ← callText records rewrite code function stream spanOpen.stop spanClose.start
      let later ← collectCalls code (.group .parenthesis stream spanOpen spanClose :: token :: before) rest
      return ⟨token.start, spanClose.stop, text⟩ :: later
    | none => do
      let inner ← collectInner code token
      let later ← collectCalls code (token :: before) (.group .parenthesis stream spanOpen spanClose :: rest)
      return inner ++ later
  | token :: rest => do
    let inner ← collectInner code token
    let later ← collectCalls code (token :: before) rest
    return inner ++ later

def collectInner (code : List Char) : TokenTree → Option (List Replacement)
  | .group _ stream _ _ => collectCalls code [] stream
  | _ => some []

end

variable (tokenize : List Char → Option (List TokenTree))

/-- `rewrite_calls`, at most some levels deep. -/
def rewriteCallsAt : Nat → List Char → Option (List Char)
  | 0, _ => none
  | levels + 1, code =>
    if functions.isEmpty then some code
    else do
      let tokens ← tokenize code
      let replacements ← collectCalls functions records (rewriteCallsAt levels) code [] tokens
      splice code replacements

/-- An argument is shorter than its call, so that the levels last. -/
def rewriteCalls (code : List Char) : Option (List Char) :=
  rewriteCallsAt functions records tokenize (code.length + 1) code

end Rewriter

section Nodes

def Node.isComma : Node → Bool
  | .sign _ .comma => true
  | _ => false

def startsGroup : List Node → Bool
  | .group _ .parenthesis _ :: _ => true
  | _ => false

/-- The nodes in front, the nearest one first, end in a dot or in a path separator. -/
def shades (before : List Node) : Bool := isMemberPlace (before.map fun node => node.token 0)

/-- The nodes between the commas, each without a blank in front; nothing behind the last comma is none. -/
def argumentNodes (held : List Node) : List Node → List (List Node)
  | [] => if held.isEmpty then [] else [spaced false held]
  | node :: rest => if node.isComma then spaced false held :: argumentNodes [] rest else argumentNodes (held ++ [node]) rest

mutual

/-- The arguments in all groups, however deep. -/
def cuts : List Node → List (List Node)
  | [] => []
  | node :: rest => node.cuts ++ cuts rest

def Node.cuts : Node → List (List Node)
  | .group _ _ inner => argumentNodes [] inner ++ cuts inner
  | _ => []

end

/-- What is made of nodes and of the calls between them, from the left to the right. -/
structure Reading (Code Step α : Type) where
  nothing : α
  join : α → α → α
  leaf : Node → α
  wrap : Bool → Delimiter → α → α
  call : Bool → AxFunctionPlan Code Step → List Node → α → α
  nothing_join : ∀ a, join nothing a = a
  join_nothing : ∀ a, join a nothing = a
  join_assoc : ∀ a b c, join (join a b) c = join a (join b c)

variable (functions : List (AxFunctionPlan Code Step)) {α : Type} (reading : Reading Code Step α)

/-- The declared function that a node names, if it is no member and no part of a path. -/
def declared (before : List Node) : Node → Option (AxFunctionPlan Code Step)
  | .word _ name => if shades before then none else functions.find? fun function => name.text = function.name
  | _ => none

mutual

/-- Reads the nodes behind others, the nearest of them first. -/
def walk (before : List Node) : List Node → α
  | [] => reading.nothing
  | node :: .group gap .parenthesis inner :: rest =>
    match declared functions before node with
    | some function =>
      reading.join (reading.call node.gap function inner (walk [] inner))
        (walk (.group gap .parenthesis inner :: node :: before) rest)
    | none => reading.join (walkNode node) (walk (node :: before) (.group gap .parenthesis inner :: rest))
  | node :: rest => reading.join (walkNode node) (walk (node :: before) rest)

def walkNode : Node → α
  | .group gap delimiter inner => reading.wrap gap delimiter (walk [] inner)
  | node => reading.leaf node

end

variable (records : List String) (rewrite : List Node → Option (List Char))

def nodeCallText (function : AxFunctionPlan Code Step) (inner : List Node) : Option (List Char) :=
  let pieces := argumentNodes [] inner
  if pieces.length ≠ function.input.length then none
  else do
    let args ← (pieces.zip function.input).mapM fun (piece, field) => do
      let arg ← rewrite piece
      return passText records field arg
    return calledText function args

def joined (a b : Option (List Char)) : Option (List Char) := do
  let first ← a
  let second ← b
  return first ++ second

/-- The text with the calls rewritten. -/
def textReading : Reading Code Step (Option (List Char)) where
  nothing := some []
  join := joined
  leaf node := some node.print
  wrap gap delimiter text := text.map fun inner => blank gap ++ enclose delimiter inner
  call gap function inner _ := (nodeCallText records rewrite function inner).map (blank gap ++ ·)
  nothing_join a := by cases a <;> rfl
  join_nothing a := by cases a <;> simp [joined]
  join_assoc a b c := by cases a <;> cases b <;> cases c <;> simp [joined]

/-- The calls with the nodes in their parentheses, however deep. -/
def siteReading : Reading Code Step (List (AxFunctionPlan Code Step × List Node)) where
  nothing := []
  join := (· ++ ·)
  leaf _ := []
  wrap _ _ sites := sites
  call _ function inner sites := (function, inner) :: sites
  nothing_join := List.nil_append
  join_nothing := List.append_nil
  join_assoc := List.append_assoc

def sites (nodes : List Node) : List (AxFunctionPlan Code Step × List Node) := walk functions siteReading [] nodes

/-- `rewrite_calls` on nodes, at most some levels deep. -/
def nodesAt : Nat → List Node → Option (List Char)
  | 0, _ => none
  | levels + 1, nodes => walk functions (textReading records (nodesAt levels)) [] nodes

end Nodes

section Walks

variable {functions : List (AxFunctionPlan Code Step)} {α : Type} {reading : Reading Code Step α}

theorem walk_nil (before : List Node) : walk functions reading before [] = reading.nothing := by
  rw [walk]

theorem walk_cons (before : List Node) {node : Node} {rest : List Node}
    (noCall : declared functions before node = none ∨ startsGroup rest = false) :
    walk functions reading before (node :: rest) =
      reading.join (walkNode functions reading node) (walk functions reading (node :: before) rest) := by
  rw [walk.eq_def]
  split
  · next empty => cases empty
  · next first gap inner others same =>
    obtain ⟨rfl, rfl⟩ := List.cons.inj same
    rcases noCall with none | other
    · rw [none]
    · cases other
  · next first others _ same =>
    obtain ⟨rfl, rfl⟩ := List.cons.inj same
    rfl

theorem walk_call {before : List Node} {node : Node} {function : AxFunctionPlan Code Step}
    (known : declared functions before node = some function) (gap : Bool) (inner rest : List Node) :
    walk functions reading before (node :: .group gap .parenthesis inner :: rest) =
      reading.join (reading.call node.gap function inner (walk functions reading [] inner))
        (walk functions reading (.group gap .parenthesis inner :: node :: before) rest) := by
  rw [walk, known]

/-- A node calls the group behind it, or is read by itself. -/
theorem call_cases (functions : List (AxFunctionPlan Code Step)) (before : List Node) (node : Node) (rest : List Node) :
    (∃ function gap inner others, declared functions before node = some function ∧
      rest = .group gap .parenthesis inner :: others) ∨
    (declared functions before node = none ∨ startsGroup rest = false) := by
  cases known : declared functions before node with
  | none => exact .inr (.inl rfl)
  | some function =>
    match rest with
    | .group gap .parenthesis inner :: others => exact .inl ⟨function, gap, inner, others, rfl, rfl⟩
    | [] | .group _ .bracket _ :: _ | .group _ .brace _ :: _ | .word _ _ :: _ | .sign _ _ :: _ | .literal _ _ :: _ =>
      exact .inr (.inr rfl)

/-- Nodes in a row are read one part after the other, if no call stands across. -/
theorem walk_append (before a : List Node) {b : List Node}
    (clear : ∀ front last, a = front ++ [last] →
      declared functions (front.reverse ++ before) last = none ∨ startsGroup b = false) :
    walk functions reading before (a ++ b) =
      reading.join (walk functions reading before a) (walk functions reading (a.reverse ++ before) b) := by
  match a with
  | [] => rw [walk_nil, reading.nothing_join]; rfl
  | [node] =>
    rw [List.singleton_append, walk_cons before (clear [] node rfl), walk_cons before (.inr rfl), walk_nil,
      reading.join_nothing]
    rfl
  | node :: next :: rest =>
    have later (front : List Node) (last : Node) (same : next :: rest = front ++ [last]) :=
      clear (node :: front) last (congrArg (node :: ·) same)
    simp only [List.reverse_cons, List.append_assoc, List.singleton_append] at later
    rcases call_cases functions before node (next :: rest) with ⟨function, gap, inner, others, known, same⟩ | noCall
    · obtain ⟨rfl, rfl⟩ := List.cons.inj same
      have ih := walk_append (.group gap .parenthesis inner :: node :: before) rest (fun front last same => by
        have clear := later (.group gap .parenthesis inner :: front) last (congrArg (_ :: ·) same)
        simpa using clear)
      rw [List.cons_append, List.cons_append, walk_call known, walk_call known, ih, reading.join_assoc]
      simp
    · have first : declared functions before node = none ∨ startsGroup (next :: (rest ++ b)) = false := by
        rcases noCall with none | other
        · exact .inl none
        · refine .inr ?_
          cases next with
          | group gap delimiter inner =>
            cases delimiter with
            | parenthesis => cases other
            | _ => rfl
          | _ => rfl
      have ih := walk_append (node :: before) (next :: rest) later
      rw [List.cons_append, List.cons_append, walk_cons before first, walk_cons before noCall, ← List.cons_append, ih,
        reading.join_assoc]
      simp

theorem declared_same {b c : List Node} (same : shades b = shades c) (node : Node) :
    declared functions b node = declared functions c node := by
  cases node with
  | word gap name => rw [declared, declared, same]
  | _ => rfl

/-- Only what the nodes in front hide counts. -/
theorem walk_same {b c : List Node} (nodes : List Node) (same : ∀ front, shades (front ++ b) = shades (front ++ c)) :
    walk functions reading b nodes = walk functions reading c nodes := by
  have later (node : Node) (front : List Node) : shades (front ++ node :: b) = shades (front ++ node :: c) := by
    have whole := same (front ++ [node])
    rwa [List.append_assoc, List.append_assoc] at whole
  have equal (node : Node) : declared functions b node = declared functions c node := declared_same (same []) node
  match nodes with
  | [] => rw [walk_nil, walk_nil]
  | [node] => rw [walk_cons b (.inr rfl), walk_cons c (.inr rfl), walk_nil, walk_nil]
  | node :: next :: rest =>
    rcases call_cases functions b node (next :: rest) with ⟨function, gap, inner, others, known, shape⟩ | noCall
    · obtain ⟨rfl, rfl⟩ := List.cons.inj shape
      have behind (front : List Node) : shades (front ++ .group gap .parenthesis inner :: node :: b) =
          shades (front ++ .group gap .parenthesis inner :: node :: c) := by
        have whole := later node (front ++ [.group gap .parenthesis inner])
        rwa [List.append_assoc, List.append_assoc] at whole
      have ih := walk_same rest behind
      rw [walk_call known, walk_call ((equal node).symm.trans known)]
      exact congrArg _ ih
    · have ih := walk_same (next :: rest) (later node)
      rw [walk_cons b noCall, walk_cons c (by rwa [← equal node]), ih]

end Walks

section Arguments

theorem firm_node (node : Node) : Text.Firm (node.withGap false).print := by
  cases node with
  | word gap name => simpa [Node.withGap, blank, Word.chars] using Text.firm_solid name.present name.solid
  | sign gap mark => simpa [Node.withGap, blank] using Text.firm_single (sign_solid mark)
  | literal gap value => simpa [Node.withGap, blank] using value.firm
  | group gap delimiter inner =>
    cases delimiter <;> exact Text.firm_wrapped (printNodes inner) (by decide) (by decide)

theorem print_withGap (node : Node) : node.print = blank node.gap ++ (node.withGap false).print := by
  cases node <;> rfl

theorem firm_nodes (node : Node) (rest : List Node) : Text.Firm (printNodes (node.withGap false :: rest)) := by
  induction rest generalizing node with
  | nil => simpa using firm_node node
  | cons next rest ih =>
    have behind := ih next
    rw [printNodes_cons] at behind
    rw [printNodes_cons, printNodes_cons, print_withGap next, List.append_assoc]
    exact (firm_node node).around behind (blank next.gap)

theorem trim_blank (gap : Bool) (text : List Char) : Text.trimChars (blank gap ++ text) = Text.trimChars text := by
  have white : Text.isWhitespace ' ' = true := by decide
  cases gap with
  | false => rfl
  | true =>
    rw [blank, if_pos rfl, List.singleton_append, Text.trimChars, Text.trimStart, List.dropWhile_cons_of_pos white]
    rfl

/-- A blank in front of nodes and one behind them are cut off. -/
theorem trim_nodes (nodes : List Node) (gap : Bool) :
    Text.trimChars (printNodes nodes ++ blank gap) = printNodes (spaced false nodes) := by
  cases nodes with
  | nil =>
    rw [printNodes_nil, List.nil_append, ← List.append_nil (blank gap), trim_blank]
    rfl
  | cons node rest =>
    rw [printNodes_cons, print_withGap node, List.append_assoc, List.append_assoc, trim_blank, ← List.append_assoc]
    cases gap with
    | false =>
      rw [blank, if_neg Bool.false_ne_true, List.append_nil]
      exact (firm_nodes node rest).trim
    | true => exact Text.trim_blank_end (firm_nodes node rest)

theorem printNodes_present {nodes : List Node} (some : nodes ≠ []) : (printNodes (spaced false nodes)).isEmpty = false := by
  cases nodes with
  | nil => exact absurd rfl some
  | cons node rest => exact (firm_nodes node rest).isEmpty

theorem argumentTexts_comma (code : List Char) {token : TokenTree} (comma : isComma token = true)
    (rest : List TokenTree) (start stop : Nat) : argumentTexts code (token :: rest) start stop =
      Text.trimChars (slice code start token.start) :: argumentTexts code rest token.stop stop := by
  simp only [argumentTexts, argumentRanges, comma, if_true]
  split <;> rfl

theorem argumentTexts_skip (code : List Char) {token : TokenTree} (other : isComma token = false)
    (rest : List TokenTree) (start stop : Nat) :
    argumentTexts code (token :: rest) start stop = argumentTexts code rest start stop := by
  simp [argumentTexts, argumentRanges, other]

theorem isComma_token (node : Node) (place : Nat) : isComma (node.token place) = node.isComma := by
  cases node with
  | sign gap mark => cases mark <;> rfl
  | _ => rfl

theorem comma_node {node : Node} (comma : node.isComma = true) : ∃ gap, node = .sign gap .comma := by
  cases node with
  | sign gap mark =>
    cases mark with
    | comma => exact ⟨gap, rfl⟩
    | _ => cases comma
  | _ => cases comma

/-- The commas cut the texts of the arguments out of the code. -/
theorem argumentTexts_nodes (held rest : List Node) {code pre post : List Char} {place stop : Nat}
    (shape : code = pre ++ (printNodes held ++ (printNodes rest ++ post)))
    (here : place = byteLength pre + byteLength (printNodes held)) (ends : stop = place + byteLength (printNodes rest)) :
    argumentTexts code (nodeTokens rest place) (byteLength pre) stop = (argumentNodes held rest).map printNodes := by
  induction rest generalizing held pre place with
  | nil =>
    have last : slice code (byteLength pre) stop = printNodes held :=
      slice_middle pre (printNodes held) post (by simp [shape]) rfl (by simp [ends, here])
    have cut := trim_nodes held false
    rw [blank, if_neg Bool.false_ne_true, List.append_nil] at cut
    by_cases none : held = []
    · rw [none] at last
      have nothing : Text.trimChars [] = [] := rfl
      simp [argumentTexts, argumentRanges, argumentNodes, last, nothing, none]
    · simp [argumentTexts, argumentRanges, argumentNodes, last, cut, none, printNodes_present none]
  | cons node rest ih =>
    rw [nodeTokens_cons]
    cases comma : node.isComma with
    | false =>
      have later := @ih (held ++ [node]) pre (place + byteLength node.print) (by simp [shape])
        (by simp [here, Nat.add_assoc]) (by simp [ends, Nat.add_assoc])
      rw [argumentTexts_skip code ((isComma_token node place).trans comma), later, argumentNodes, comma]
      rfl
    | true =>
      obtain ⟨gap, rfl⟩ := comma_node comma
      have narrow : Char.utf8Size ',' = 1 := by decide
      have first : slice code (byteLength pre) (place + gap.toNat) = printNodes held ++ blank gap :=
        slice_middle pre (printNodes held ++ blank gap) (',' :: (printNodes rest ++ post)) (by simp [shape, Sign.char]) rfl
          (by simp [here, byteLength_blank, Nat.add_assoc])
      have later := @ih [] (pre ++ (printNodes held ++ (blank gap ++ [',']))) (place + gap.toNat + 1)
        (by simp [shape, Sign.char]) (by simp [here, byteLength_blank, narrow, Nat.add_assoc])
        (by simp [ends, byteLength_blank, narrow, Sign.char, Nat.add_assoc])
      have start : byteLength (pre ++ (printNodes held ++ (blank gap ++ [',']))) = place + gap.toNat + 1 := by
        simp [here, byteLength_blank, narrow, Nat.add_assoc]
      have width : byteLength (Node.sign gap .comma).print = gap.toNat + 1 := by
        simp [byteLength_blank, Sign.char, narrow]
      rw [start] at later
      rw [argumentTexts_comma code ((isComma_token _ place).trans comma), argumentNodes, comma, if_pos rfl, List.map_cons,
        ← trim_nodes held gap, ← first, ← later, width, ← Nat.add_assoc]
      rfl

end Arguments

section Positions

/-- The replacements make the text out of the old one, or there are neither. -/
def Spliced (place : Nat) (old : List Char) (found : Option (List Replacement)) (text : Option (List Char)) : Prop :=
  match text with
  | none => found = none
  | some new => ∃ pieces, Solid pieces ∧ olds pieces = old ∧ news pieces = new ∧ found = some (edits place pieces)

def gathered (a b : Option (List Replacement)) : Option (List Replacement) := do
  let first ← a
  let second ← b
  return first ++ second

theorem Spliced.join {place : Nat} {a b : List Char} {f g : Option (List Replacement)} {x y : Option (List Char)}
    (first : Spliced place a f x) (second : Spliced (place + byteLength a) b g y) :
    Spliced place (a ++ b) (gathered f g) (joined x y) := by
  cases x with
  | none =>
    have empty : f = none := first
    rw [empty]
    rfl
  | some new =>
    obtain ⟨front, solid, rfl, rfl, rfl⟩ := first
    cases y with
    | none =>
      have empty : g = none := second
      rw [empty]
      rfl
    | some newer =>
      obtain ⟨behind, firm, rfl, rfl, rfl⟩ := second
      refine ⟨front ++ behind, solid_append solid firm, olds_append front behind, news_append front behind, ?_⟩
      rw [edits_append]
      rfl

theorem Spliced.kept (place : Nat) (text : List Char) : Spliced place text (some []) (some text) :=
  ⟨[.kept text], solid_kept text solid_nil, by simp, by simp, rfl⟩

theorem Spliced.nothing (place : Nat) : Spliced place [] (some []) (some []) := ⟨[], solid_nil, rfl, rfl, rfl⟩

theorem Spliced.group {place : Nat} {old : List Char} {found : Option (List Replacement)} {text : Option (List Char)}
    (gap : Bool) (delimiter : Delimiter) (inner : Spliced (place + gap.toNat + 1) old found text) :
    Spliced place (blank gap ++ enclose delimiter old) found
      (text.map fun inside => blank gap ++ enclose delimiter inside) := by
  cases text with
  | none => exact inner
  | some new =>
    obtain ⟨pieces, solid, rfl, rfl, rfl⟩ := inner
    refine ⟨.kept (blank gap) :: groupPieces delimiter pieces, solid_kept _ (solid_group solid), ?_, ?_, ?_⟩
    · rw [olds_cons, olds_group]
      rfl
    · rw [news_cons, news_group]
      rfl
    · rw [edits_kept, edits_group, byteLength_blank]

theorem Spliced.changed (place : Nat) (gap : Bool) {old : List Char} (present : old ≠ []) (text : Option (List Char)) :
    Spliced place (blank gap ++ old)
      (text.map fun new => [⟨place + gap.toNat, place + gap.toNat + byteLength old, new⟩]) (text.map (blank gap ++ ·)) := by
  cases text with
  | none => rfl
  | some new =>
    refine ⟨[.kept (blank gap), .changed old new], solid_kept _ ?_, by simp, by simp, ?_⟩
    · intro other newer member
      obtain ⟨rfl, _⟩ := Piece.changed.inj (List.mem_singleton.mp member)
      exact present
    · rw [Option.map_some, edits_kept, byteLength_blank]
      rfl

variable {functions : List (AxFunctionPlan Code Step)} {records : List String} {code : List Char}
  {rewrite : List Char → Option (List Char)}

/-- A token that calls no function. -/
theorem collectCalls_cons (before : List TokenTree) {token : TokenTree} {rest : List TokenTree}
    (noCall : namedFunction functions before token = none ∨ startsParenthesis rest = false) :
    collectCalls functions records rewrite code before (token :: rest) =
      gathered (collectInner functions records rewrite code token)
        (collectCalls functions records rewrite code (token :: before) rest) := by
  rw [collectCalls.eq_def]
  split
  · next empty => cases empty
  · next first stream spanOpen spanClose others same =>
    obtain ⟨rfl, rfl⟩ := List.cons.inj same
    rcases noCall with none | other
    · rw [none]
      rfl
    · cases other
  · next first others _ same =>
    obtain ⟨rfl, rfl⟩ := List.cons.inj same
    rfl

theorem collectCalls_call {before : List TokenTree} {token : TokenTree} {function : AxFunctionPlan Code Step}
    (known : namedFunction functions before token = some function) (stream : List TokenTree) (opens closes : Span)
    (rest : List TokenTree) :
    collectCalls functions records rewrite code before (token :: .group .parenthesis stream opens closes :: rest) =
      gathered ((callText records rewrite code function stream opens.stop closes.start).map fun text =>
          [⟨token.start, closes.stop, text⟩])
        (collectCalls functions records rewrite code (.group .parenthesis stream opens closes :: token :: before) rest) := by
  rw [collectCalls, known]
  dsimp only
  cases callText records rewrite code function stream opens.stop closes.start <;> rfl

/-- The tokens are those of the nodes. -/
def Aligned : List TokenTree → List Node → Prop := List.Forall₂ fun token node => ∃ place, token = node.token place

theorem isDot_token (node : Node) (place : Nat) : isDot (node.token place) = isDot (node.token 0) := by
  cases node <;> rfl

theorem isColon_token (node : Node) (place : Nat) : isColon (node.token place) = isColon (node.token 0) := by
  cases node <;> rfl

theorem aligned_shades {tokens : List TokenTree} {nodes : List Node} (aligned : Aligned tokens nodes) :
    isMemberPlace tokens = shades nodes := by
  match aligned with
  | .nil => rfl
  | .cons ⟨place, same⟩ .nil =>
    subst same
    exact isDot_token _ place
  | .cons ⟨place, same⟩ (.cons ⟨earlier, known⟩ _) =>
    subst same known
    show (_ || _ && _) = (_ || _ && _)
    rw [isDot_token, isColon_token, isColon_token _ earlier]

theorem namedFunction_token {before : List TokenTree} {nodes : List Node} (aligned : Aligned before nodes) (node : Node)
    (place : Nat) : namedFunction functions before (node.token place) = declared functions nodes node := by
  cases node with
  | word gap name =>
    rw [declared, ← aligned_shades aligned]
    rfl
  | _ => rfl

theorem declared_word {before : List Node} {node : Node} {function : AxFunctionPlan Code Step}
    (known : declared functions before node = some function) : ∃ gap name, node = .word gap name := by
  cases node with
  | word gap name => exact ⟨gap, name, rfl⟩
  | _ => cases known

theorem collectCalls_word {tokens : List TokenTree} {before : List Node} (aligned : Aligned tokens before) {space : Bool}
    {name : Word} {function : AxFunctionPlan Code Step} (known : declared functions before (.word space name) = some function)
    (gap : Bool) (inner rest : List Node) {place mid : Nat} (middle : mid = place + byteLength (Node.word space name).print) :
    collectCalls functions records rewrite code tokens
        (nodeTokens (.word space name :: .group gap .parenthesis inner :: rest) place) =
      gathered ((callText records rewrite code function (nodeTokens inner (mid + gap.toNat + 1)) (mid + gap.toNat + 1)
          (mid + gap.toNat + 1 + byteLength (printNodes inner))).map fun text =>
            [⟨place + space.toNat, mid + gap.toNat + 2 + byteLength (printNodes inner), text⟩])
        (collectCalls functions records rewrite code
          ((Node.group gap .parenthesis inner).token mid :: (Node.word space name).token place :: tokens)
          (nodeTokens rest (mid + byteLength (Node.group gap .parenthesis inner).print))) := by
  have named := (@namedFunction_token _ _ functions tokens before aligned (.word space name) place).trans known
  subst middle
  rw [nodeTokens_cons, nodeTokens_cons]
  exact collectCalls_call named _ _ _ _

theorem startsParenthesis_tokens (nodes : List Node) (place : Nat) :
    startsParenthesis (nodeTokens nodes place) = startsGroup nodes := by
  match nodes with
  | [] | .word _ _ :: _ | .sign _ _ :: _ | .literal _ _ :: _ | .group _ .parenthesis _ :: _ | .group _ .brace _ :: _
  | .group _ .bracket _ :: _ => rfl

theorem print_core (name : Word) (gap : Bool) (inner : List Node) :
    printNodes [.word false name, .group gap .parenthesis inner] =
      name.chars ++ (blank gap ++ enclose .parenthesis (printNodes inner)) := by
  simp [blank]

variable {rewriteNodes : List Node → Option (List Char)}

theorem callText_nodes (function : AxFunctionPlan Code Step) {inner : List Node}
    (correct : ∀ piece ∈ argumentNodes [] inner, rewrite (printNodes piece) = rewriteNodes piece)
    {pre post : List Char} {place stop : Nat} (shape : code = pre ++ (printNodes inner ++ post))
    (here : place = byteLength pre) (ends : stop = place + byteLength (printNodes inner)) :
    callText records rewrite code function (nodeTokens inner place) place stop =
      nodeCallText records rewriteNodes function inner := by
  have texts := @argumentTexts_nodes [] inner code pre post place stop shape here ends
  rw [← here] at texts
  have args (fields : List (AxFieldPlan Code)) (pieces : List (List Node))
      (each : ∀ piece ∈ pieces, rewrite (printNodes piece) = rewriteNodes piece) :
      ((pieces.map printNodes).zip fields).mapM (fun (text, field) => do
          let arg ← rewrite text
          return passText records field arg) =
        (pieces.zip fields).mapM fun (piece, field) => do
          let arg ← rewriteNodes piece
          return passText records field arg := by
    induction pieces generalizing fields with
    | nil => rfl
    | cons piece rest ih =>
      cases fields with
      | nil => rfl
      | cons field fields =>
        have later := ih fields fun next member => each next (List.mem_cons_of_mem _ member)
        rw [List.map_cons, List.zip_cons_cons, List.mapM_cons, List.zip_cons_cons, List.mapM_cons, later]
        dsimp only
        rw [each piece List.mem_cons_self]
  rw [callText, texts, nodeCallText, List.length_map, args function.input _ correct]

mutual

/-- The replacements that the tokens of nodes give are the changes in the nodes' text. -/
theorem collectCalls_nodes (nodes : List Node)
    (correct : ∀ piece ∈ cuts nodes, rewrite (printNodes piece) = rewriteNodes piece) (pre post : List Char) (place : Nat)
    (shape : code = pre ++ (printNodes nodes ++ post)) (here : place = byteLength pre) (tokens : List TokenTree)
    (before : List Node) (aligned : Aligned tokens before) :
    Spliced place (printNodes nodes) (collectCalls functions records rewrite code tokens (nodeTokens nodes place))
      (walk functions (textReading records rewriteNodes) before nodes) := by
  match nodes with
  | [] =>
    rw [walk_nil, nodeTokens_nil, collectCalls]
    exact Spliced.nothing place
  | [node] =>
    have single := collectInner_node node (fun piece member => correct piece (List.mem_append_left _ member)) pre post place
      (by simp [shape]) here
    rw [walk_cons before (.inr rfl), walk_nil, nodeTokens_cons, nodeTokens_nil, collectCalls_cons tokens (.inr rfl),
      collectCalls, printNodes_cons]
    exact single.join (Spliced.nothing _)
  | node :: next :: rest =>
    rcases call_cases functions before node (next :: rest) with ⟨function, gap, inner, others, known, same⟩ | noCall
    · obtain ⟨rfl, rfl⟩ := List.cons.inj same
      obtain ⟨space, name, rfl⟩ := declared_word known
      obtain ⟨mid, middle⟩ : ∃ mid, mid = place + byteLength (Node.word space name).print := ⟨_, rfl⟩
      have opens : mid + gap.toNat + 1 =
          byteLength (pre ++ ((Node.word space name).print ++ (blank gap ++ ['(']))) := by
        have narrow : Char.utf8Size '(' = 1 := by decide
        simp only [middle, here, byteLength_append, byteLength_blank, byteLength_cons, byteLength_nil, narrow]
        omega
      have text := @callText_nodes _ _ records code rewrite rewriteNodes function inner
        (fun piece member => correct piece (List.mem_append_right _ (List.mem_append_left _ (List.mem_append_left _ member))))
        (pre ++ ((Node.word space name).print ++ (blank gap ++ ['(']))) (')' :: (printNodes rest ++ post))
        (mid + gap.toNat + 1) (mid + gap.toNat + 1 + byteLength (printNodes inner))
        (by simp [shape, enclose, Delimiter.opening, Delimiter.closing]) opens rfl
      have present : printNodes [.word false name, .group gap .parenthesis inner] ≠ [] := by
        rw [print_core]
        exact List.append_ne_nil_of_left_ne_nil name.present _
      have changed := @Spliced.changed place space _ present (nodeCallText records rewriteNodes function inner)
      have core : blank space ++ printNodes [.word false name, .group gap .parenthesis inner] =
          (Node.word space name).print ++ (Node.group gap .parenthesis inner).print := by simp [blank]
      have ends : place + space.toNat + byteLength (printNodes [.word false name, .group gap .parenthesis inner]) =
          mid + gap.toNat + 2 + byteLength (printNodes inner) := by
        simp only [print_core, middle, Node.print, byteLength_append, byteLength_blank, byteLength_enclose]
        omega
      have later := collectCalls_nodes rest
        (fun piece member => correct piece (List.mem_append_right _ (List.mem_append_right _ member)))
        (pre ++ ((Node.word space name).print ++ (Node.group gap .parenthesis inner).print)) post
        (mid + byteLength (Node.group gap .parenthesis inner).print) (by simp [shape])
        (by simp [here, middle, Nat.add_assoc])
        ((Node.group gap .parenthesis inner).token mid :: (Node.word space name).token place :: tokens)
        (.group gap .parenthesis inner :: .word space name :: before) (.cons ⟨_, rfl⟩ (.cons ⟨place, rfl⟩ aligned))
      rw [core, ends] at changed
      have behind : mid + byteLength (Node.group gap .parenthesis inner).print = place + byteLength
          ((Node.word space name).print ++ (Node.group gap .parenthesis inner).print) := by
        rw [byteLength_append, middle, Nat.add_assoc]
      rw [walk_call known, printNodes_cons, printNodes_cons, ← List.append_assoc,
        collectCalls_word aligned known gap inner rest middle, text]
      rw [behind] at later ⊢
      exact changed.join later
    · have first := collectInner_node node (fun piece member => correct piece (List.mem_append_left _ member)) pre
        (printNodes (next :: rest) ++ post) place (by simp [shape]) here
      have later := collectCalls_nodes (next :: rest) (fun piece member => correct piece (List.mem_append_right _ member))
        (pre ++ node.print) post (place + byteLength node.print) (by simp [shape]) (by simp [here])
        (node.token place :: tokens) (node :: before) (.cons ⟨place, rfl⟩ aligned)
      have plain : namedFunction functions tokens (node.token place) = none ∨
          startsParenthesis (nodeTokens (next :: rest) (place + byteLength node.print)) = false := by
        rwa [namedFunction_token aligned, startsParenthesis_tokens]
      rw [walk_cons before noCall, nodeTokens_cons, collectCalls_cons tokens plain, printNodes_cons]
      exact first.join later

theorem collectInner_node (node : Node)
    (correct : ∀ piece ∈ node.cuts, rewrite (printNodes piece) = rewriteNodes piece) (pre post : List Char) (place : Nat)
    (shape : code = pre ++ (node.print ++ post)) (here : place = byteLength pre) :
    Spliced place node.print (collectInner functions records rewrite code (node.token place))
      (walkNode functions (textReading records rewriteNodes) node) := by
  match node with
  | .word gap name => exact Spliced.kept place _
  | .sign gap mark => exact Spliced.kept place _
  | .literal gap value => exact Spliced.kept place _
  | .group gap delimiter inner =>
    have same := collectCalls_nodes inner (fun piece member => correct piece (List.mem_append_right _ member))
      (pre ++ (blank gap ++ [delimiter.opening])) (delimiter.closing :: post) (place + gap.toNat + 1)
      (by simp [shape, enclose]) (by simp [here, byteLength_blank, opening_narrow, Nat.add_assoc]) [] [] .nil
    exact same.group gap delimiter

end

end Positions

section Levels

theorem cuts_append (a b : List Node) : cuts (a ++ b) = cuts a ++ cuts b := by
  induction a with
  | nil => rfl
  | cons node rest ih => rw [List.cons_append, cuts, cuts, ih, List.append_assoc]

theorem cuts_spaced (gap : Bool) (nodes : List Node) : cuts (spaced gap nodes) = cuts nodes := by
  cases nodes with
  | nil => rfl
  | cons node rest => cases node <;> rfl

theorem cuts_argument {held rest piece part : List Node} (cut : piece ∈ argumentNodes held rest)
    (inside : part ∈ cuts piece) : part ∈ cuts (held ++ rest) := by
  induction rest generalizing held with
  | nil =>
    by_cases none : held = []
    · simp [argumentNodes, none] at cut
    · have same : piece = spaced false held := by simpa [argumentNodes, none] using cut
      rw [same, cuts_spaced] at inside
      rwa [List.append_nil]
  | cons node rest ih =>
    rw [argumentNodes] at cut
    split at cut
    · rcases List.mem_cons.mp cut with rfl | behind
      · rw [cuts_spaced] at inside
        rw [cuts_append]
        exact List.mem_append_left _ inside
      · rw [cuts_append]
        exact List.mem_append_right _ (List.mem_append_right _ (ih behind))
    · have later := ih cut
      rwa [List.append_assoc] at later

mutual

/-- What is cut out of an argument is cut out of the whole. -/
theorem cuts_cuts {nodes piece part : List Node} (cut : piece ∈ cuts nodes) (inside : part ∈ cuts piece) :
    part ∈ cuts nodes := by
  match nodes with
  | [] => cases cut
  | node :: rest =>
    rcases List.mem_append.mp cut with here | behind
    · exact List.mem_append_left _ (cuts_node here inside)
    · exact List.mem_append_right _ (cuts_cuts behind inside)

theorem cuts_node {node : Node} {piece part : List Node} (cut : piece ∈ node.cuts) (inside : part ∈ cuts piece) :
    part ∈ node.cuts := by
  match node with
  | .group _ _ inner =>
    rcases List.mem_append.mp cut with argument | deeper
    · exact List.mem_append_right _ (cuts_argument argument inside)
    · exact List.mem_append_right _ (cuts_cuts deeper inside)
  | .word _ _ | .sign _ _ | .literal _ _ => cases cut

end

variable {records : List String} {rewrite : List Node → Option (List Char)}

theorem declared_nil (before : List Node) (node : Node) :
    declared ([] : List (AxFunctionPlan Code Step)) before node = none := by
  cases node with
  | word gap name =>
    rw [declared]
    split <;> rfl
  | _ => rfl

mutual

theorem walk_undeclared (before nodes : List Node) :
    walk ([] : List (AxFunctionPlan Code Step)) (textReading records rewrite) before nodes = some (printNodes nodes) := by
  match nodes with
  | [] => rw [walk_nil]; rfl
  | node :: rest =>
    rw [walk_cons before (.inl (declared_nil before node)), walkNode_undeclared node, walk_undeclared (node :: before) rest]
    rfl

theorem walkNode_undeclared (node : Node) :
    walkNode ([] : List (AxFunctionPlan Code Step)) (textReading records rewrite) node = some node.print := by
  match node with
  | .word _ _ | .sign _ _ | .literal _ _ => rfl
  | .group gap delimiter inner => rw [walkNode, walk_undeclared [] inner]; rfl

end

variable {functions : List (AxFunctionPlan Code Step)} {tokenize : List Char → Option (List TokenTree)}

/-- The byte positions do what the nodes say. -/
theorem rewriteCallsAt_nodes (levels : Nat) {nodes : List Node}
    (lexed : ∀ part ∈ nodes :: cuts nodes, tokenize (printNodes part) = some (nodeTokens part 0)) :
    rewriteCallsAt functions records tokenize levels (printNodes nodes) = nodesAt functions records levels nodes := by
  induction levels generalizing nodes with
  | zero => rfl
  | succ levels ih =>
    cases functions with
    | nil =>
      rw [nodesAt, walk_undeclared]
      rfl
    | cons function others =>
      have spliced := @collectCalls_nodes _ _ (function :: others) records (printNodes nodes) _ _ nodes
        (fun piece cut => ih fun part inside => lexed part (by
          rcases List.mem_cons.mp inside with rfl | deeper
          · exact List.mem_cons_of_mem _ cut
          · exact List.mem_cons_of_mem _ (cuts_cuts cut deeper)))
        [] [] 0 (List.append_nil _).symm rfl [] [] .nil
      have here := lexed nodes List.mem_cons_self
      rw [rewriteCallsAt, nodesAt, here]
      simp only [List.isEmpty_cons, Bool.false_eq_true, if_false, Option.bind_eq_bind, Option.bind_some]
      cases text : walk (function :: others) (textReading records (nodesAt (function :: others) records levels)) [] nodes with
      | none =>
        rw [text] at spliced
        have empty : _ = none := spliced
        rw [empty]
        rfl
      | some new =>
        rw [text] at spliced
        obtain ⟨pieces, solid, old, rfl, found⟩ := spliced
        rw [found, ← old]
        exact splice_pieces solid (List.Perm.refl _)

end Levels

section Sites

variable {functions : List (AxFunctionPlan Code Step)} {records : List String} {rewrite : List Node → Option (List Char)}

/-- The commas in the parentheses cut another number of arguments than the function has parameters. -/
def miscounted (site : AxFunctionPlan Code Step × List Node) : Bool :=
  (argumentNodes [] site.2).length ≠ site.1.input.length

/-- How many question marks a text has. -/
def marks (text : List Char) : Nat := text.count '?'

/-- A text for calls that all have the right number of arguments, with one mark for each of them. -/
def Told (calls : List (AxFunctionPlan Code Step × List Node)) (old : List Char) (text : Option (List Char)) : Prop :=
  if calls.any miscounted then text = none else ∃ new, text = some new ∧ marks new = marks old + calls.length

theorem marks_append (a b : List Char) : marks (a ++ b) = marks a + marks b := List.count_append

theorem marks_blank (gap : Bool) : marks (blank gap) = 0 := by
  cases gap <;> rfl

theorem Told.join {calls more : List (AxFunctionPlan Code Step × List Node)} {a b : List Char} {x y : Option (List Char)}
    (first : Told calls a x) (second : Told more b y) : Told (calls ++ more) (a ++ b) (joined x y) := by
  simp only [Told, List.any_append, Bool.or_eq_true] at *
  split at first
  · next bad =>
    rw [if_pos (.inl bad), first]
    rfl
  · next good =>
    obtain ⟨new, rfl, front⟩ := first
    split at second
    · next bad =>
      rw [if_pos (.inr bad), second]
      rfl
    · next well =>
      obtain ⟨newer, rfl, behind⟩ := second
      rw [if_neg (not_or.mpr ⟨good, well⟩)]
      refine ⟨new ++ newer, rfl, ?_⟩
      rw [marks_append, marks_append, front, behind, List.length_append]
      omega

theorem Told.map {calls : List (AxFunctionPlan Code Step × List Node)} {old older : List Char} {text : Option (List Char)}
    (told : Told calls old text) (wrap : List Char → List Char)
    (same : ∀ new, marks (wrap new) + marks old = marks older + marks new) : Told calls older (text.map wrap) := by
  rw [Told] at *
  split at told
  · next bad =>
    rw [if_pos bad, told]
    rfl
  · next good =>
    obtain ⟨new, rfl, count⟩ := told
    rw [if_neg good]
    refine ⟨wrap new, rfl, ?_⟩
    have wrapped := same new
    omega

theorem shades_gap (node : Node) (gap : Bool) (before front : List Node) :
    shades (front ++ node.withGap gap :: before) = shades (front ++ node :: before) := by
  match front with
  | [] => cases node <;> cases before <;> rfl
  | [first] => cases first <;> cases node <;> rfl
  | first :: second :: rest => rfl

theorem shades_behind (node : Node) (gap : Bool) (next : Node) (before front : List Node) :
    shades (front ++ next :: node.withGap gap :: before) = shades (front ++ next :: node :: before) := by
  have whole := shades_gap node gap before (front ++ [next])
  rwa [List.append_assoc, List.append_assoc] at whole

theorem shades_comma (gap : Bool) (before front : List Node) :
    shades (front ++ .sign gap .comma :: before) = shades (front ++ []) := by
  match front with
  | [] => cases before <;> rfl
  | [first] => cases first <;> simp [shades, isMemberPlace, Node.token, isDot, isColon, Sign.char]
  | first :: second :: rest => rfl

theorem declared_gap (node : Node) (gap : Bool) (before : List Node) :
    declared functions before (node.withGap gap) = declared functions before node := by
  cases node <;> rfl

/-- A blank in front changes no call. -/
theorem walk_spaced (gap : Bool) (before nodes : List Node) :
    walk functions siteReading before (spaced gap nodes) = walk functions siteReading before nodes := by
  cases nodes with
  | nil => rfl
  | cons node rest =>
    have same : declared functions before (node.withGap gap) = declared functions before node := declared_gap node gap before
    rcases call_cases functions before node rest with ⟨function, space, inner, others, known, rfl⟩ | noCall
    · have behind := @walk_same _ _ functions _ siteReading _ _ others
        (shades_behind node gap (.group space .parenthesis inner) before)
      rw [spaced, walk_call (same.trans known), walk_call known]
      exact congrArg ((function, inner) :: walk functions siteReading [] inner ++ ·) behind
    · have behind := @walk_same _ _ functions _ siteReading _ _ rest (shades_gap node gap before)
      have inside : walkNode functions siteReading (node.withGap gap) = walkNode functions siteReading node := by
        cases node <;> rfl
      rw [spaced, walk_cons before (by rwa [same]), walk_cons before noCall, behind, inside]

theorem sites_spaced (gap : Bool) (nodes : List Node) : sites functions (spaced gap nodes) = sites functions nodes :=
  walk_spaced gap [] nodes

theorem sites_comma (held rest : List Node) (gap : Bool) :
    sites functions (held ++ .sign gap .comma :: rest) = sites functions held ++ sites functions rest := by
  have behind := @walk_same _ _ functions _ siteReading _ _ rest (shades_comma gap (held.reverse ++ []))
  rw [sites, walk_append [] held fun _ _ _ => .inr rfl, walk_cons _ (.inl rfl), behind]
  rfl

/-- No call stands across a comma. -/
theorem sites_arguments (held rest : List Node) :
    (argumentNodes held rest).flatMap (sites functions) = sites functions (held ++ rest) := by
  induction rest generalizing held with
  | nil =>
    by_cases none : held = []
    · rw [none]
      rfl
    · simp [argumentNodes, none, sites_spaced]
  | cons node rest ih =>
    rw [argumentNodes]
    split
    · next comma =>
      obtain ⟨gap, rfl⟩ := comma_node comma
      rw [List.flatMap_cons, sites_spaced, ih, sites_comma]
      rfl
    · rw [ih, List.append_assoc]
      rfl

theorem marks_spaced (nodes : List Node) : marks (printNodes (spaced false nodes)) = marks (printNodes nodes) := by
  cases nodes with
  | nil => rfl
  | cons node rest =>
    rw [spaced, printNodes_cons, printNodes_cons, print_withGap node, marks_append, marks_append, marks_append,
      marks_blank]
    omega

theorem marks_arguments (held rest : List Node) :
    ((argumentNodes held rest).map fun piece => marks (printNodes piece)).sum =
      marks (printNodes held) + marks (printNodes rest) := by
  induction rest generalizing held with
  | nil =>
    by_cases none : held = []
    · rw [none]
      rfl
    · have nothing : marks [] = 0 := rfl
      simp [argumentNodes, none, marks_spaced, nothing]
  | cons node rest ih =>
    rw [argumentNodes, printNodes_cons, marks_append]
    split
    · next comma =>
      obtain ⟨gap, rfl⟩ := comma_node comma
      have none : marks (Node.sign gap .comma).print = 0 := by cases gap <;> rfl
      rw [List.map_cons, List.sum_cons, ih, marks_spaced, none, printNodes_nil]
      simp [marks]
    · rw [ih, printNodes_append, marks_append, printNodes_cons, printNodes_nil, List.append_nil]
      omega

theorem marks_join (texts : List (List Char)) : marks ([',', ' '].intercalate texts) = (texts.map marks).sum := by
  induction texts with
  | nil => rfl
  | cons text rest ih =>
    cases rest with
    | nil => simp [List.intercalate]
    | cons next others =>
      rw [List.intercalate_cons_cons, marks_append, marks_append, ih, List.map_cons, List.sum_cons]
      rfl

theorem marks_pass (field : AxFieldPlan Code) (arg : List Char) : marks (passText records field arg) = marks arg := by
  unfold passText
  split
  · simp [marks]
  · split
    · rfl
    · simp [marks]

/-- The arguments, each with one mark for each of its calls. -/
theorem told_arguments {pieces : List (List Node)} {fields : List (AxFieldPlan Code)} (count : pieces.length = fields.length)
    (each : ∀ piece ∈ pieces, Told (sites functions piece) (printNodes piece) (rewrite piece)) :
    let args := (pieces.zip fields).mapM fun (piece, field) => do
      let arg ← rewrite piece
      return passText records field arg
    let calls := pieces.flatMap (sites functions)
    if calls.any miscounted then args = none
    else ∃ texts, args = some texts ∧
      (texts.map marks).sum = (pieces.map fun piece => marks (printNodes piece)).sum + calls.length := by
  induction pieces generalizing fields with
  | nil =>
    cases fields with
    | nil => exact ⟨[], rfl, rfl⟩
    | cons field fields => cases count
  | cons piece rest ih =>
    cases fields with
    | nil => cases count
    | cons field fields =>
      have later := ih (Nat.succ.inj count) fun next member => each next (List.mem_cons_of_mem _ member)
      have first := each piece List.mem_cons_self
      simp only [List.zip_cons_cons, List.mapM_cons, List.flatMap_cons, List.any_append, Bool.or_eq_true, List.map_cons,
        List.sum_cons, List.length_append]
      rw [Told] at first
      split at first
      · next bad =>
        rw [if_pos (.inl bad), first]
        rfl
      · next good =>
        obtain ⟨new, text, front⟩ := first
        dsimp only at later
        split at later
        · next bad =>
          rw [if_pos (.inr bad), text, later]
          rfl
        · next well =>
          obtain ⟨texts, args, behind⟩ := later
          rw [if_neg (not_or.mpr ⟨good, well⟩), text, args]
          refine ⟨passText records field new :: texts, rfl, ?_⟩
          rw [List.map_cons, List.sum_cons, marks_pass, front, behind]
          omega

theorem declared_name {before : List Node} {gap : Bool} {name : Word} {function : AxFunctionPlan Code Step}
    (known : declared functions before (.word gap name) = some function) : name.text = function.name := by
  rw [declared] at known
  split at known
  · cases known
  · have found := List.find?_some known
    exact of_decide_eq_true found

theorem told_call (function : AxFunctionPlan Code Step) {name : Word} (known : name.text = function.name)
    (space gap : Bool) {inner : List Node}
    (each : ∀ piece ∈ argumentNodes [] inner, Told (sites functions piece) (printNodes piece) (rewrite piece)) :
    Told ((function, inner) :: sites functions inner)
      ((Node.word space name).print ++ (Node.group gap .parenthesis inner).print)
      ((nodeCallText records rewrite function inner).map (blank space ++ ·)) := by
  rw [Told, nodeCallText]
  by_cases count : (argumentNodes [] inner).length = function.input.length
  · have args := @told_arguments _ _ functions records rewrite _ _ count each
    have inside := @sites_arguments _ _ functions [] inner
    have total := marks_arguments [] inner
    have right : miscounted (function, inner) = false := by simp [miscounted, count]
    dsimp only at args
    rw [inside, List.nil_append] at args
    rw [List.any_cons, right, Bool.false_or]
    split at args
    · next bad =>
      rw [if_pos bad, if_neg (not_not.mpr count), args]
      rfl
    · next good =>
      obtain ⟨texts, made, marked⟩ := args
      rw [if_neg good, if_neg (not_not.mpr count), made]
      refine ⟨blank space ++ calledText function texts, rfl, ?_⟩
      have called : function.name.toList = name.chars := by rw [← known]; rfl
      have nothing : marks [] = 0 := rfl
      have opening : marks ['('] = 0 := rfl
      have closing : marks [')', '?'] = 1 := rfl
      have group : marks (Node.group gap .parenthesis inner).print = marks (printNodes inner) := by
        have last : marks [')'] = 0 := rfl
        rw [Node.print, marks_append, marks_blank, enclose, ← List.singleton_append, marks_append, marks_append]
        simp [Delimiter.opening, Delimiter.closing, opening, last]
      have word : marks (Node.word space name).print = marks name.chars := by
        rw [Node.print, marks_append, marks_blank, Nat.zero_add]
      simp only [calledText, called, marks_append, marks_blank, marks_join, marked, total, printNodes_nil, word, group,
        List.length_cons, nothing, opening, closing]
      omega
  · have wrong : miscounted (function, inner) = true := by simp [miscounted, count]
    rw [List.any_cons, wrong, Bool.true_or, if_pos rfl, if_pos count]
    rfl

mutual

/-- The text of nodes tells how many calls there are. -/
theorem told_walk (before nodes : List Node)
    (each : ∀ piece ∈ cuts nodes, Told (sites functions piece) (printNodes piece) (rewrite piece)) :
    Told (walk functions siteReading before nodes) (printNodes nodes)
      (walk functions (textReading records rewrite) before nodes) := by
  match nodes with
  | [] =>
    rw [walk_nil, walk_nil]
    exact ⟨[], rfl, rfl⟩
  | [node] =>
    have single := told_node node fun piece member => each piece (List.mem_append_left _ member)
    rw [walk_cons before (.inr rfl), walk_cons before (.inr rfl), walk_nil, walk_nil]
    exact single.join ⟨[], rfl, rfl⟩
  | node :: next :: rest =>
    rcases call_cases functions before node (next :: rest) with ⟨function, gap, inner, others, known, same⟩ | noCall
    · obtain ⟨rfl, rfl⟩ := List.cons.inj same
      obtain ⟨space, name, rfl⟩ := declared_word known
      have call := @told_call _ _ functions records rewrite function name (declared_name known) space gap inner
        fun piece member => each piece (List.mem_append_right _ (List.mem_append_left _ (List.mem_append_left _ member)))
      have later := told_walk (.group gap .parenthesis inner :: .word space name :: before) rest fun piece member =>
        each piece (List.mem_append_right _ (List.mem_append_right _ member))
      rw [walk_call known, walk_call known, printNodes_cons, printNodes_cons, ← List.append_assoc]
      exact call.join later
    · have first := told_node node fun piece member => each piece (List.mem_append_left _ member)
      have later := told_walk (node :: before) (next :: rest) fun piece member =>
        each piece (List.mem_append_right _ member)
      rw [walk_cons before noCall, walk_cons before noCall, printNodes_cons]
      exact first.join later

theorem told_node (node : Node)
    (each : ∀ piece ∈ node.cuts, Told (sites functions piece) (printNodes piece) (rewrite piece)) :
    Told (walkNode functions siteReading node) node.print (walkNode functions (textReading records rewrite) node) := by
  match node with
  | .word _ _ | .sign _ _ | .literal _ _ => exact ⟨_, rfl, rfl⟩
  | .group gap delimiter inner =>
    have told := told_walk [] inner fun piece member => each piece (List.mem_append_right _ member)
    refine told.map (fun inside => blank gap ++ enclose delimiter inside) fun new => ?_
    rw [Node.print]
    simp only [enclose, marks, List.count_append, List.count_cons]
    omega

end

theorem argument_shorter {held rest piece : List Node} (cut : piece ∈ argumentNodes held rest) :
    (printNodes piece).length ≤ (printNodes held).length + (printNodes rest).length := by
  have trimmed (nodes : List Node) : (printNodes (spaced false nodes)).length ≤ (printNodes nodes).length := by
    cases nodes with
    | nil => exact Nat.le_refl _
    | cons node rest =>
      rw [spaced, printNodes_cons, printNodes_cons, print_withGap node, List.append_assoc]
      exact (List.sublist_append_right _ _).length_le
  induction rest generalizing held with
  | nil =>
    by_cases none : held = []
    · simp [argumentNodes, none] at cut
    · have same : piece = spaced false held := by simpa [argumentNodes, none] using cut
      rw [same]
      exact trimmed held
  | cons node rest ih =>
    rw [printNodes_cons, List.length_append]
    rw [argumentNodes] at cut
    split at cut
    · rcases List.mem_cons.mp cut with rfl | behind
      · have less := trimmed held
        omega
      · have less := ih behind
        rw [printNodes_nil, List.length_nil] at less
        omega
    · have less := ih cut
      rw [printNodes_append, List.length_append, printNodes_cons, printNodes_nil, List.append_nil] at less
      omega

mutual

/-- An argument is shorter than the nodes around it. -/
theorem cuts_shorter {nodes piece : List Node} (cut : piece ∈ cuts nodes) :
    (printNodes piece).length < (printNodes nodes).length := by
  match nodes with
  | [] => cases cut
  | node :: rest =>
    rw [printNodes_cons, List.length_append]
    rcases List.mem_append.mp cut with here | behind
    · have less := cuts_shorter_node here
      omega
    · have less := cuts_shorter behind
      omega

theorem cuts_shorter_node {node : Node} {piece : List Node} (cut : piece ∈ node.cuts) :
    (printNodes piece).length < node.print.length := by
  match node with
  | .group gap delimiter inner =>
    rw [Node.print, enclose, List.length_append, List.length_cons, List.length_append]
    rcases List.mem_append.mp cut with argument | deeper
    · have less := argument_shorter argument
      rw [printNodes_nil, List.length_nil] at less
      omega
    · have less := cuts_shorter deeper
      omega
  | .word _ _ | .sign _ _ | .literal _ _ => cases cut

end

theorem told_nodes {levels : Nat} {nodes : List Node} (enough : (printNodes nodes).length < levels) :
    Told (sites functions nodes) (printNodes nodes) (nodesAt functions records levels nodes) := by
  induction levels generalizing nodes with
  | zero => exact absurd enough (Nat.not_lt_zero _)
  | succ levels ih =>
    apply told_walk
    intro piece cut
    have less := cuts_shorter cut
    exact ih (by omega)

end Sites

end Axonyx.Core.Rust
