import Axonyx.Core.BackendModule
import Axonyx.Identifiers
import Mathlib.Data.List.Nodup

/-! The names that a generated module defines, in terms of the words of the declared names. -/
namespace Axonyx.Core.Backend

open Identifiers

section Normalized

theorem word_ends {word : List Char} (good : Word word) :
    word.head? ≠ some '_' ∧ word.getLast? ≠ some '_' :=
  ⟨fun first => (good.2 '_' (List.mem_of_head? first)).2 rfl,
    fun last => (good.2 '_' (List.mem_of_getLast? last)).2 rfl⟩

theorem snake_ends {segments : List (List Char)} (good : ∀ word ∈ segments, Word word) :
    (snake segments).head? ≠ some '_' ∧ (snake segments).getLast? ≠ some '_' := by
  induction segments with
  | nil => simp [snake]
  | cons word rest ih =>
    have here := good word List.mem_cons_self
    have later := ih fun word member => good word (List.mem_cons_of_mem _ member)
    by_cases last : rest = []
    · subst last
      simpa [snake] using word_ends here
    · rw [snake_cons word last]
      have nonempty : snake rest ≠ [] := by
        obtain ⟨next, more, rfl⟩ := List.exists_cons_of_ne_nil last
        have first := (good next (by simp)).1
        by_cases only : more = []
        · subst only
          simpa [snake] using first
        · rw [snake_cons next only]
          simp
      constructor
      · rw [List.head?_append_of_ne_nil _ here.1]
        exact (word_ends here).1
      · rw [List.getLast?_append_of_ne_nil _ (by simp), List.getLast?_cons_of_ne_nil nonempty]
        exact later.2

theorem dropWhile_mark {text : List Char} (first : text.head? ≠ some '_') :
    text.dropWhile (· == '_') = text := by
  cases text with
  | nil => rfl
  | cons c rest =>
    have other : c ≠ '_' := fun same => first (by rw [same]; rfl)
    simp [other]

theorem trimUnderscores_ends {text : List Char} (ends : text.head? ≠ some '_' ∧ text.getLast? ≠ some '_') :
    trimUnderscores text = text ∧ trimUnderscores (text ++ ['_']) = text := by
  have back : text.reverse.head? ≠ some '_' := by rw [List.head?_reverse]; exact ends.2
  constructor
  · rw [trimUnderscores, dropWhile_mark ends.1, dropWhile_mark back, List.reverse_reverse]
  · by_cases empty : text = []
    · subst empty
      rfl
    · have front : (text ++ ['_']).head? ≠ some '_' := by
        rw [List.head?_append_of_ne_nil _ empty]
        exact ends.1
      rw [trimUnderscores, dropWhile_mark front, List.reverse_append, List.reverse_singleton,
        List.singleton_append, List.dropWhile_cons_of_pos (by rfl), dropWhile_mark back,
        List.reverse_reverse]

/-- What the loop has written once it has read the words `done` and is in the word `current`. -/
def written (done : List (List Char)) (current : List Char) : List Char :=
  if current.isEmpty then if done.isEmpty then [] else snake done ++ ['_'] else snake (done ++ [current])

theorem snake_concat (done : List (List Char)) (word : List Char) :
    snake (done ++ [word]) = (if done.isEmpty then [] else snake done ++ ['_']) ++ word := by
  cases done with
  | nil => simp [snake]
  | cons first rest =>
    rw [snake_append (List.cons_ne_nil _ _) (List.cons_ne_nil _ _)]
    simp [snake]

theorem written_extend (done : List (List Char)) (current : List Char) (c : Char) :
    written done current ++ [c] = written done (current ++ [c]) := by
  cases current with
  | nil =>
    simp only [List.nil_append, written, List.isEmpty_nil, List.isEmpty_cons, if_true,
      Bool.false_eq_true, if_false, snake_concat]
  | cons first rest =>
    rw [written, written, if_neg (by simp), if_neg (by simp), snake_concat, snake_concat,
      List.append_assoc]

theorem written_flush {done : List (List Char)} {current : List Char} (inside : current ≠ []) :
    written done current ++ ['_'] = written (done ++ flush current) [] := by
  obtain ⟨c, rest, rfl⟩ := List.exists_cons_of_ne_nil inside
  simp [written, flush]

theorem written_ne_nil {done : List (List Char)} {current : List Char} (inside : current ≠ []) :
    written done current ≠ [] := by
  obtain ⟨c, rest, rfl⟩ := List.exists_cons_of_ne_nil inside
  rw [written, if_neg (by simp), snake_concat]
  simp

/-- The loop writes the words that it reads. -/
theorem normalizeFrom_words {text : List Char} (current : List Char) {done : List (List Char)}
    (good : ∀ word ∈ done, Word word) (start : Lowered current) :
    trimUnderscores (normalizeFrom (written done current) current.isEmpty text) =
      snake (done ++ wordsFrom current text) := by
  induction text generalizing current done with
  | nil =>
    rw [normalizeFrom, wordsFrom]
    cases current with
    | nil =>
      rw [flush, List.append_nil]
      cases done with
      | nil => rfl
      | cons word rest => exact (trimUnderscores_ends (snake_ends good)).2
    | cons c rest =>
      refine (trimUnderscores_ends (snake_ends ?_)).1
      exact List.forall_mem_append.mpr ⟨good, by simpa using ⟨List.cons_ne_nil c rest, start⟩⟩
  | cons ch rest ih =>
    have flushed : ∀ word ∈ done ++ flush current, Word word := by
      refine List.forall_mem_append.mpr ⟨good, fun word member => ?_⟩
      obtain ⟨rfl, some⟩ := mem_flush.mp member
      exact ⟨some, start⟩
    rw [normalizeFrom, wordsFrom]
    by_cases letter : ch.isAlphanum = true
    · rw [if_pos letter, if_pos letter]
      by_cases upper : ch.isUpper = true
      · have lowered : Lowered [ch.toLower] := by simpa [Lowered] using lowered_toLower upper
        have next := ih _ flushed lowered
        rw [if_pos upper, ← List.append_assoc, ← next]
        cases current with
        | nil =>
          rw [flush, List.append_nil, ← List.nil_append [ch.toLower], ← written_extend]
          simp
        | cons c word =>
          have inside := List.cons_ne_nil c word
          have some : (written done (c :: word)).isEmpty = false :=
            List.isEmpty_eq_false_iff.mpr (written_ne_nil inside)
          rw [← List.nil_append [ch.toLower], ← written_extend, ← written_flush inside, upper, some]
          rfl
      · have lowered : Lowered (current ++ [ch]) := by
          refine List.forall_mem_append.mpr ⟨start, ?_⟩
          rw [List.forall_mem_singleton]
          refine ⟨Bool.eq_false_iff.mpr upper, ?_⟩
          rintro rfl
          exact absurd letter (by decide)
        have next := ih _ good lowered
        have longer : (current ++ [ch]).isEmpty = false := by simp
        rw [if_neg upper, ← next, ← written_extend, longer, toLower_of_not_isUpper (Bool.eq_false_iff.mpr upper),
          Bool.eq_false_iff.mpr upper]
        rfl
    · rw [if_neg letter, if_neg letter, ← List.append_assoc]
      have next := ih [] flushed (fun _ member => absurd member List.not_mem_nil)
      rw [← next]
      cases current with
      | nil =>
        rw [flush, List.append_nil]
        rfl
      | cons c word =>
        rw [← written_flush (List.cons_ne_nil c word)]
        rfl

/-- `normalize_ident` joins the words of a text. -/
theorem normalizeIdent_eq (text : List Char) : normalizeIdent text = snake (words text) :=
  @normalizeFrom_words text [] [] nofun nofun

end Normalized

section Declarations

inductive Kind where
  | loader | action | job | route
  deriving DecidableEq, Repr

def Kind.word : Kind → List Char
  | .loader => "loader".toList
  | .action => "action".toList
  | .job => "job".toList
  | .route => "route".toList

def Kind.title : Kind → List Char
  | .loader => "HandlerLoader".toList
  | .action => "Action".toList
  | .job => "HandlerJob".toList
  | .route => "Route".toList

/-- A declared handler by the segments of its name. -/
structure Handler where
  kind : Kind
  segments : List (List Char)
  hasInput : Bool

/-- The segments with something in them. -/
def Handler.parts (handler : Handler) : List (List Char) :=
  handler.segments.filter fun part => !part.isEmpty

def Handler.functionName (handler : Handler) : List Char :=
  handler.kind.word ++ '_' :: snake handler.segments

def Handler.structName (handler : Handler) : List Char :=
  handler.kind.title ++ camel handler.parts ++ "Input".toList

def Handler.names (handler : Handler) : List (List Char) :=
  if handler.hasInput then [handler.structName, handler.functionName] else [handler.functionName]

/-- The segments are those of a name or of a method and a path. -/
def Handler.Proper (handler : Handler) : Prop :=
  (∀ segment ∈ handler.segments, Lowered segment) ∧
    (handler.segments = [] ∨ snake handler.segments ≠ []) ∧
    (handler.kind = .job → handler.hasInput = false)

/-- A type, a helper or a function under its own name, or a handler. -/
inductive Declaration where
  | named (name : String)
  | handler (handler : Handler)

def Declaration.names : Declaration → List (List Char)
  | .named name => [name.toList]
  | .handler entry => entry.names

def Declaration.Proper : Declaration → Prop
  | .named _ => True
  | .handler entry => entry.Proper

/-- Two handlers of one kind have the same segments, or both take an input and their segments
run together alike. -/
def Handler.Clash (first second : Handler) : Prop :=
  first.kind = second.kind ∧
    (first.segments = second.segments ∨
      first.hasInput = true ∧ second.hasInput = true ∧ fuse first.parts = fuse second.parts)

/-- A declared name is the name of a handler's function or of its input. -/
def Handler.Takes (handler : Handler) (name : String) : Prop :=
  name.toList = handler.functionName ∨ handler.hasInput = true ∧ name.toList = handler.structName

def Clash : Declaration → Declaration → Prop
  | .named first, .named second => first = second
  | .named name, .handler handler => handler.Takes name
  | .handler handler, .named name => handler.Takes name
  | .handler first, .handler second => first.Clash second

instance (first second : Handler) : Decidable (first.Clash second) :=
  inferInstanceAs (Decidable (_ ∧ (_ ∨ _ ∧ _ ∧ _)))

instance (handler : Handler) (name : String) : Decidable (handler.Takes name) :=
  inferInstanceAs (Decidable (_ ∨ _ ∧ _))

instance : (first second : Declaration) → Decidable (Clash first second)
  | .named first, .named second => inferInstanceAs (Decidable (first = second))
  | .named name, .handler entry => inferInstanceAs (Decidable (entry.Takes name))
  | .handler entry, .named name => inferInstanceAs (Decidable (entry.Takes name))
  | .handler first, .handler second => inferInstanceAs (Decidable (first.Clash second))

end Declarations

section Distinct

def Kind.initial : Kind → Char
  | .loader => 'l'
  | .action => 'a'
  | .job => 'j'
  | .route => 'r'

def Kind.capital : Kind → Char
  | .loader | .job => 'H'
  | .action => 'A'
  | .route => 'R'

theorem head_functionName (handler : Handler) : handler.functionName.head? = some handler.kind.initial := by
  rcases handler with ⟨kind, segments, hasInput⟩
  cases kind <;> rfl

theorem head_structName (handler : Handler) : handler.structName.head? = some handler.kind.capital := by
  rcases handler with ⟨kind, segments, hasInput⟩
  cases kind <;> rfl

theorem structName_ne_functionName (first second : Handler) : first.structName ≠ second.functionName := by
  intro same
  have heads := congrArg List.head? same
  rw [head_structName, head_functionName] at heads
  have apart : ∀ kind kind' : Kind, kind.capital ≠ kind'.initial := by
    intro kind kind'
    cases kind <;> cases kind' <;> decide
  exact apart _ _ (Option.some.inj heads)

theorem snake_segments_eq {first second : Handler} (proper : first.Proper) (proper' : second.Proper)
    (same : snake first.segments = snake second.segments) : first.segments = second.segments := by
  have empty : snake [] = [] := rfl
  rcases proper.2.1 with none | some
  · rcases proper'.2.1 with none' | some'
    · rw [none, none']
    · rw [none, empty] at same
      exact absurd same.symm some'
  · rcases proper'.2.1 with none' | some'
    · rw [none', empty] at same
      exact absurd same some
    · refine snake_injective ?_ ?_ ?_ ?_ same
      · rintro rfl'
        exact some (by rw [rfl', empty])
      · rintro rfl'
        exact some' (by rw [rfl', empty])
      · exact fun segment member mark => (proper.1 segment member '_' mark).2 rfl
      · exact fun segment member mark => (proper'.1 segment member '_' mark).2 rfl

theorem functionName_eq_iff {first second : Handler} (proper : first.Proper) (proper' : second.Proper) :
    first.functionName = second.functionName ↔
      first.kind = second.kind ∧ first.segments = second.segments := by
  constructor
  · intro same
    have kinds : first.kind = second.kind := by
      have heads := congrArg List.head? same
      rw [head_functionName, head_functionName] at heads
      have initials := Option.some.inj heads
      generalize first.kind = kind at initials ⊢
      generalize second.kind = kind' at initials ⊢
      cases kind <;> cases kind' <;> first | rfl | exact absurd initials (by decide)
    refine ⟨kinds, snake_segments_eq proper proper' ?_⟩
    rw [Handler.functionName, Handler.functionName, kinds] at same
    exact (List.cons.inj (List.append_cancel_left same)).2
  · rintro ⟨kinds, segments⟩
    rw [Handler.functionName, Handler.functionName, kinds, segments]

theorem structName_eq_iff {first second : Handler} (proper : first.Proper) (proper' : second.Proper)
    (input : first.hasInput = true) (input' : second.hasInput = true) :
    first.structName = second.structName ↔ first.kind = second.kind ∧ fuse first.parts = fuse second.parts := by
  have lowered : ∀ part ∈ first.parts, Lowered part := fun part member =>
    proper.1 part (List.mem_filter.mp member).1
  have lowered' : ∀ part ∈ second.parts, Lowered part := fun part member =>
    proper'.1 part (List.mem_filter.mp member).1
  constructor
  · intro same
    have kinds : first.kind = second.kind := by
      have heads := congrArg List.head? same
      rw [head_structName, head_structName] at heads
      have capitals := Option.some.inj heads
      have noJob : first.kind ≠ .job := fun job => by simp [proper.2.2 job] at input
      have noJob' : second.kind ≠ .job := fun job => by simp [proper'.2.2 job] at input'
      generalize first.kind = kind at capitals noJob ⊢
      generalize second.kind = kind' at capitals noJob' ⊢
      cases kind <;> cases kind' <;>
        first | rfl | exact absurd capitals (by decide) | exact absurd rfl noJob | exact absurd rfl noJob'
    refine ⟨kinds, (camel_eq_iff lowered lowered').mp ?_⟩
    rw [Handler.structName, Handler.structName, kinds] at same
    exact List.append_cancel_left (List.append_cancel_right same)
  · rintro ⟨kinds, fused⟩
    rw [Handler.structName, Handler.structName, kinds, (camel_eq_iff lowered lowered').mpr fused]

theorem handler_names_nodup (handler : Handler) : handler.names.Nodup := by
  rw [Handler.names]
  split
  · simpa using structName_ne_functionName handler handler
  · exact List.nodup_singleton _

/-- The names of a handler. -/
theorem mem_handler_names {handler : Handler} {name : List Char} :
    name ∈ handler.names ↔
      name = handler.functionName ∨ handler.hasInput = true ∧ name = handler.structName := by
  rw [Handler.names]
  split
  next input => simp [input, or_comm]
  next none => simp [none]

theorem handlers_share_iff {first second : Handler} (proper : first.Proper) (proper' : second.Proper) :
    (∃ name, name ∈ first.names ∧ name ∈ second.names) ↔ first.Clash second := by
  simp only [mem_handler_names]
  constructor
  · rintro ⟨name, rfl | ⟨input, rfl⟩, same | ⟨input', same⟩⟩
    · obtain ⟨kinds, segments⟩ := (functionName_eq_iff proper proper').mp same
      exact ⟨kinds, .inl segments⟩
    · exact absurd same.symm (structName_ne_functionName second first)
    · exact absurd same (structName_ne_functionName first second)
    · obtain ⟨kinds, fused⟩ := (structName_eq_iff proper proper' input input').mp same
      exact ⟨kinds, .inr ⟨input, input', fused⟩⟩
  · rintro ⟨kinds, segments | ⟨input, input', fused⟩⟩
    · exact ⟨_, .inl rfl, .inl ((functionName_eq_iff proper proper').mpr ⟨kinds, segments⟩)⟩
    · exact ⟨_, .inr ⟨input, rfl⟩,
        .inr ⟨input', (structName_eq_iff proper proper' input input').mpr ⟨kinds, fused⟩⟩⟩

/-- Two declarations define a common name exactly where they clash. -/
theorem declarations_share_iff {first second : Declaration} (proper : first.Proper)
    (proper' : second.Proper) :
    (∃ name, name ∈ first.names ∧ name ∈ second.names) ↔ Clash first second := by
  cases first with
  | named name =>
    cases second with
    | named name' => simp [Declaration.names, Clash, String.toList_inj]
    | handler handler => simp [Declaration.names, Clash, Handler.Takes, mem_handler_names]
  | handler handler =>
    cases second with
    | named name => simp [Declaration.names, Clash, Handler.Takes, mem_handler_names]
    | handler handler' => exact handlers_share_iff proper proper'

theorem names_nodup_iff {declarations : List Declaration}
    (proper : ∀ declaration ∈ declarations, declaration.Proper) :
    (declarations.flatMap Declaration.names).Nodup ↔
      declarations.Pairwise fun first second => ¬ Clash first second := by
  have each : ∀ declaration ∈ declarations, declaration.names.Nodup := by
    intro declaration _
    cases declaration with
    | named name => exact List.nodup_singleton _
    | handler handler => exact handler_names_nodup handler
  rw [List.nodup_flatMap, and_iff_right each]
  apply List.Pairwise.iff_of_mem
  intro first second member member'
  rw [← declarations_share_iff (proper first member) (proper second member')]
  simp [Function.onFun, List.Disjoint]

end Distinct

section Emission

variable {Expr Stmt Code Step : Type}

def pathWords (path : List Char) : List (List Char) :=
  if (words path).isEmpty then ["root".toList] else words path

def routeSegments (method path : List Char) : List (List Char) :=
  (routeMethodIdent method).splitOn '_' ++ pathWords path

def callableHandler (kind : Kind) (callable : AxCallable Expr Stmt) : Handler :=
  ⟨kind, words (trimmed callable.name.toList), !callable.input.isEmpty⟩

/-- The handler that a block declares. -/
def blockHandler : AxBackendBlock Expr Stmt → Option Handler
  | .route route =>
    some ⟨.route, routeSegments route.method.toList route.path.toList, !route.input.isEmpty⟩
  | .loader loader => some (callableHandler .loader loader)
  | .action action => some (callableHandler .action action)
  | .job job => some ⟨.job, words (trimmed job.name.toList), false⟩
  | .backend _ | .function _ | .scope => none

def blockFunction : AxBackendBlock Expr Stmt → Option String
  | .function function => some function.name
  | _ => none

def documentTypes (literalUnions : Bool) (document : AxBackendDocument Expr Stmt) : List String :=
  (document.types.filter fun type => type.literals.isEmpty != literalUnions).map (·.name)

/-- Everything that a bundle of documents has in its module, in the order of the module. -/
def declarations (documents : List (AxBackendDocument Expr Stmt)) : List Declaration :=
  leadingHelpers.map .named ++ (documents.flatMap (documentTypes true)).map .named ++
    (documents.flatMap (documentTypes false)).map .named ++ middleHelpers.map .named ++
    (documents.flatMap fun document => document.blocks.filterMap blockFunction).map .named ++
    (documents.flatMap fun document => document.blocks.filterMap blockHandler).map .handler ++
    dispatchers.map .named

theorem snake_words_ne_nil {segments : List (List Char)} (good : ∀ word ∈ segments, Word word) :
    segments = [] ∨ snake segments ≠ [] := by
  cases segments with
  | nil => exact .inl rfl
  | cons word rest =>
    refine .inr ?_
    have first := (good word List.mem_cons_self).1
    by_cases last : rest = []
    · subst last
      simpa [snake] using first
    · rw [snake_cons word last]
      simp

theorem pathWords_words (path : List Char) : ∀ word ∈ pathWords path, Word word := by
  rw [pathWords]
  split
  · intro word member
    obtain rfl := List.mem_singleton.mp member
    exact ⟨by decide, by decide⟩
  · exact words_words path

theorem pathWords_ne_nil (path : List Char) : pathWords path ≠ [] := by
  rw [pathWords]
  split
  · simp
  next some => simpa using some

theorem routePathIdent_eq (path : List Char) : routePathIdent path = snake (pathWords path) := by
  have whole := normalizeIdent_eq path
  simp only [routePathIdent, pathWords, whole]
  rcases snake_words_ne_nil (words_words path) with none | some
  · rw [none]
    rfl
  · have more : (words path).isEmpty = false := by
      rw [List.isEmpty_eq_false_iff]
      intro none
      exact some (by rw [none]; rfl)
    rw [if_neg (by simpa using some), more]
    rfl

theorem routeMethodIdent_lowered (method : List Char) {c : Char} (member : c ∈ routeMethodIdent method) :
    c.isUpper = false := by
  rw [routeMethodIdent] at member
  split at member
  · obtain ⟨source, _, rfl⟩ := List.mem_map.mp member
    by_cases upper : source.isUpper = true
    · exact (lowered_toLower upper).1
    · rw [toLower_of_not_isUpper (Bool.eq_false_iff.mpr upper)]
      exact Bool.eq_false_iff.mpr upper
  · rw [normalizeIdent_eq] at member
    rcases mem_snake member with rfl | ⟨word, found, inside⟩
    · decide
    · exact ((words_words _ word found).2 c inside).1

theorem routeSegments_lowered (method path : List Char) :
    ∀ segment ∈ routeSegments method path, Lowered segment := by
  refine List.forall_mem_append.mpr ⟨fun segment member c inside => ?_, fun word member => ?_⟩
  · obtain ⟨within, plain⟩ := mem_splitOn member inside
    exact ⟨routeMethodIdent_lowered method within, plain⟩
  · exact (pathWords_words path word member).2

theorem snake_routeSegments (method path : List Char) :
    snake (routeSegments method path) = routeMethodIdent method ++ '_' :: routePathIdent path := by
  rw [routeSegments, snake_append (List.splitOn_ne_nil _ _) (pathWords_ne_nil path), routePathIdent_eq]
  congr 1
  exact List.intercalate_splitOn '_'

theorem blockHandler_proper {block : AxBackendBlock Expr Stmt} {handler : Handler}
    (declared : blockHandler block = some handler) : handler.Proper := by
  have named (name : List Char) : (∀ word ∈ words name, Lowered word) ∧
      (words name = [] ∨ snake (words name) ≠ []) :=
    ⟨fun word member => (words_words name word member).2, snake_words_ne_nil (words_words name)⟩
  cases block with
  | route route =>
    cases declared
    refine ⟨routeSegments_lowered _ _, .inr ?_, nofun⟩
    rw [snake_routeSegments]
    simp
  | loader loader =>
    cases declared
    exact ⟨(named _).1, (named _).2, nofun⟩
  | action action =>
    cases declared
    exact ⟨(named _).1, (named _).2, nofun⟩
  | job job =>
    cases declared
    exact ⟨(named _).1, (named _).2, fun _ => rfl⟩
  | backend body => cases declared
  | function function => cases declared
  | scope => cases declared

theorem capitalized_lowered {part : List Char} (lowered : Lowered part) : capitalized part = raised part := by
  cases part with
  | nil => rfl
  | cons first rest =>
    rw [capitalized, raised]
    have same : rest.map Char.toLower = rest.map id := List.map_congr_left fun c member =>
      toLower_of_not_isUpper (lowered c (List.mem_cons_of_mem _ member)).1
    rw [same, List.map_id]

/-- The parts of a joined name are its segments. -/
theorem splitOn_snake {segments : List (List Char)} (lowered : ∀ segment ∈ segments, Lowered segment) :
    ((snake segments).splitOn '_').filter (fun part => !part.isEmpty) =
      segments.filter fun part => !part.isEmpty := by
  by_cases none : segments = []
  · subst none
    rfl
  · rw [snake, List.splitOn_intercalate '_' (fun segment member mark => (lowered segment member '_' mark).2 rfl)
      none]

theorem camel_capitalized {parts : List (List Char)} (lowered : ∀ part ∈ parts, Lowered part) :
    parts.flatMap capitalized = camel parts :=
  List.flatMap_congr fun part member => capitalized_lowered (lowered part member)

/-- The name of an input is made of the segments of its handler's function. -/
theorem inputStructName_eq {handler : Handler} (proper : handler.Proper) (input : handler.kind ≠ .job) :
    inputStructName handler.functionName = handler.structName := by
  have parts := splitOn_snake proper.1
  have camelled : handler.parts.flatMap capitalized = camel handler.parts :=
    camel_capitalized fun part member => proper.1 part (List.mem_filter.mp member).1
  rcases handler with ⟨kind, segments, hasInput⟩
  simp only [Handler.parts] at camelled
  cases kind with
  | action =>
    have front : dropPrefix "action_".toList ("action".toList ++ '_' :: snake segments) = some (snake segments) :=
      dropPrefix_eq_some.mpr rfl
    change inputStructName ("action".toList ++ '_' :: snake segments) = _
    simp only [inputStructName, front, parts]
    rw [camelled]
    rfl
  | route =>
    have front : dropPrefix "action_".toList ("route".toList ++ '_' :: snake segments) = none := rfl
    have front' : dropPrefix "route_".toList ("route".toList ++ '_' :: snake segments) = some (snake segments) :=
      dropPrefix_eq_some.mpr rfl
    change inputStructName ("route".toList ++ '_' :: snake segments) = _
    simp only [inputStructName, front, front', parts]
    rw [camelled]
    rfl
  | loader =>
    have front : dropPrefix "action_".toList ("loader".toList ++ '_' :: snake segments) = none := rfl
    have front' : dropPrefix "route_".toList ("loader".toList ++ '_' :: snake segments) = none := rfl
    have pieces : ("loader".toList ++ '_' :: snake segments).splitOn '_' =
        "loader".toList :: (snake segments).splitOn '_' := by
      rw [List.splitOn_append_cons_self]
      rfl
    change inputStructName ("loader".toList ++ '_' :: snake segments) = _
    simp only [inputStructName, front, front', pieces]
    rw [List.filter_cons_of_pos (by rfl), parts, List.flatMap_cons]
    rw [camelled]
    rfl
  | job => exact absurd rfl input

/-- The names under which a handler of the plan is defined. -/
def planNames (handler : AxHandlerPlan Code Step) : List (List Char) :=
  if (handlerInputFields handler).isEmpty then [handler.rustFn.toList]
  else [inputStructName handler.rustFn.toList, handler.rustFn.toList]

theorem renderHandler_names {rendering : Rendering Code Step} {plan : AxBackendPlan Code Step}
    {handler : AxHandlerPlan Code Step} {items : List Item}
    (rendered : renderHandler rendering plan handler = .ok items) :
    items.map (fun item => item.name.toList) = planNames handler := by
  obtain ⟨text, _, next⟩ := Outcome.bind_ok.mp rendered
  rw [planNames]
  dsimp only at next
  split at next
  next none =>
    obtain rfl := Except.ok.inj next
    rw [if_pos none]
    rfl
  next some =>
    obtain rfl := Except.ok.inj next
    rw [if_neg some]
    simp

theorem planNames_eq {plan : AxHandlerPlan Code Step} {handler : Handler} (proper : handler.Proper)
    (name : plan.rustFn.toList = handler.functionName)
    (input : (handlerInputFields plan).isEmpty = !handler.hasInput) : planNames plan = handler.names := by
  rw [planNames, Handler.names, input, name]
  cases takes : handler.hasInput with
  | false => rfl
  | true =>
    have noJob : handler.kind ≠ .job := fun job => by simp [proper.2.2 job] at takes
    rw [inputStructName_eq proper noJob]
    rfl

theorem isEmpty_of_mapM {α β ε : Type} {f : α → Except ε β} {items : List α} {values : List β}
    (passed : items.mapM f = .ok values) : values.isEmpty = items.isEmpty := by
  have same : values.map (fun _ => ()) = items.map fun _ => () :=
    Outcome.map_of_mapM passed fun _ _ _ => rfl
  cases items <;> cases values <;> first | rfl | cases same

variable {lowering : Steps Expr Stmt Code Step}

theorem lowerRoute_names {route : AxRoute Expr Stmt} {plan : AxHandlerPlan Code Step} {handler : Handler}
    (lowered : lowerRoute lowering route = .ok plan)
    (declared : blockHandler (.route route) = some handler) : planNames plan = handler.names := by
  refine planNames_eq (blockHandler_proper declared) ?_ ?_
  all_goals
    cases declared
    simp only [lowerRoute] at lowered
    split at lowered
    · cases lowered
    split at lowered
    · cases lowered
    obtain ⟨input, passed, next⟩ := Outcome.bind_ok.mp lowered
    obtain ⟨steps, _, last⟩ := Outcome.bind_ok.mp next
    obtain rfl := Except.ok.inj last
  · rw [Handler.functionName, snake_routeSegments, rustName, String.toList_ofList]
    rfl
  · rw [Bool.not_not]
    exact isEmpty_of_mapM passed

theorem rustName_words {kind : Kind} {word : String} (same : word.toList = kind.word) (name : List Char)
    (hasInput : Bool) :
    (rustName word (normalizeIdent name)).toList = Handler.functionName ⟨kind, words name, hasInput⟩ := by
  rw [rustName, String.toList_ofList, same, normalizeIdent_eq, Handler.functionName]

theorem lowerLoader_names {loader : AxCallable Expr Stmt} {plan : AxHandlerPlan Code Step} {handler : Handler}
    (lowered : lowerLoader lowering loader = .ok plan)
    (declared : blockHandler (.loader loader) = some handler) : planNames plan = handler.names := by
  have proper := blockHandler_proper declared
  cases declared
  simp only [lowerLoader] at lowered
  split at lowered
  · cases lowered
  obtain ⟨input, passed, next⟩ := Outcome.bind_ok.mp lowered
  obtain ⟨steps, _, last⟩ := Outcome.bind_ok.mp next
  obtain rfl := Except.ok.inj last
  refine planNames_eq proper (rustName_words rfl _ _) ?_
  rw [callableHandler, Bool.not_not]
  exact isEmpty_of_mapM passed

theorem lowerAction_names {action : AxCallable Expr Stmt} {plan : AxHandlerPlan Code Step} {handler : Handler}
    (lowered : lowerAction lowering action = .ok plan)
    (declared : blockHandler (.action action) = some handler) : planNames plan = handler.names := by
  have proper := blockHandler_proper declared
  cases declared
  simp only [lowerAction] at lowered
  split at lowered
  · cases lowered
  obtain ⟨input, passed, next⟩ := Outcome.bind_ok.mp lowered
  obtain ⟨steps, _, last⟩ := Outcome.bind_ok.mp next
  obtain rfl := Except.ok.inj last
  refine planNames_eq proper (rustName_words rfl _ _) ?_
  rw [callableHandler, Bool.not_not]
  exact isEmpty_of_mapM passed

theorem lowerJob_names {job : AxJob Stmt} {plan : AxHandlerPlan Code Step} {handler : Handler}
    (lowered : lowerJob lowering job = .ok plan)
    (declared : blockHandler (.job job : AxBackendBlock Expr Stmt) = some handler) : planNames plan = handler.names := by
  have proper := blockHandler_proper declared
  cases declared
  simp only [lowerJob] at lowered
  split at lowered
  · cases lowered
  obtain ⟨steps, _, last⟩ := Outcome.bind_ok.mp lowered
  obtain rfl := Except.ok.inj last
  exact planNames_eq proper (rustName_words rfl _ _) rfl

theorem lowerFunction_name {function : AxCallable Expr Stmt} {plan : AxFunctionPlan Code Step}
    (lowered : lowerFunction lowering function = .ok plan) : plan.name = function.name := by
  simp only [lowerFunction] at lowered
  split at lowered
  · cases lowered
  obtain ⟨input, _, next⟩ := Outcome.bind_ok.mp lowered
  obtain ⟨steps, _, last⟩ := Outcome.bind_ok.mp next
  obtain rfl := Except.ok.inj last
  rfl

/-- What a block adds to the plan has the names that the block declares. -/
theorem lowerBlock_names {block : AxBackendBlock Expr Stmt}
    {result : List Step × List (AxFunctionPlan Code Step) × List (AxHandlerPlan Code Step)}
    (lowered : lowerBlock lowering block = .ok result) :
    result.2.1.map (·.name) = (blockFunction block).toList ∧
      result.2.2.flatMap planNames = (blockHandler block).toList.flatMap Handler.names := by
  cases block with
  | backend body =>
    obtain ⟨globals, _, last⟩ := Outcome.bind_ok.mp lowered
    obtain rfl := Except.ok.inj last
    exact ⟨rfl, rfl⟩
  | scope =>
    obtain rfl := Except.ok.inj lowered
    exact ⟨rfl, rfl⟩
  | function function =>
    obtain ⟨plan, here, last⟩ := Outcome.bind_ok.mp lowered
    obtain rfl := Except.ok.inj last
    refine ⟨?_, rfl⟩
    rw [List.map_singleton, lowerFunction_name here]
    rfl
  | route route =>
    obtain ⟨plan, here, last⟩ := Outcome.bind_ok.mp lowered
    obtain rfl := Except.ok.inj last
    refine ⟨rfl, ?_⟩
    rw [List.flatMap_singleton, lowerRoute_names here rfl]
    simp [blockHandler]
  | loader loader =>
    obtain ⟨plan, here, last⟩ := Outcome.bind_ok.mp lowered
    obtain rfl := Except.ok.inj last
    refine ⟨rfl, ?_⟩
    rw [List.flatMap_singleton, lowerLoader_names here rfl]
    simp [blockHandler]
  | action action =>
    obtain ⟨plan, here, last⟩ := Outcome.bind_ok.mp lowered
    obtain rfl := Except.ok.inj last
    refine ⟨rfl, ?_⟩
    rw [List.flatMap_singleton, lowerAction_names here rfl]
    simp [blockHandler]
  | job job =>
    obtain ⟨plan, here, last⟩ := Outcome.bind_ok.mp lowered
    obtain rfl := Except.ok.inj last
    refine ⟨rfl, ?_⟩
    rw [List.flatMap_singleton, lowerJob_names here rfl]
    simp [blockHandler]

theorem lowerTypeContracts_names {seen : List String} {types : List AxBackendTypeDecl}
    {records : List AxRecordPlan} {unions : List AxLiteralUnionPlan}
    (lowered : lowerTypeContracts seen types = .ok (records, unions)) :
    records.map (·.name) = (types.filter fun type => type.literals.isEmpty != false).map (·.name) ∧
      unions.map (·.name) = (types.filter fun type => type.literals.isEmpty != true).map (·.name) := by
  induction types generalizing seen records unions with
  | nil =>
    obtain ⟨rfl, rfl⟩ := Prod.mk.inj (Except.ok.inj lowered)
    exact ⟨rfl, rfl⟩
  | cons type rest ih =>
    simp only [lowerTypeContracts] at lowered
    split at lowered
    · cases lowered
    split at lowered
    next union =>
      obtain ⟨⟨others, otherUnions⟩, later, last⟩ := Outcome.bind_ok.mp lowered
      obtain ⟨rfl, rfl⟩ := Prod.mk.inj (Except.ok.inj last)
      obtain ⟨same, same'⟩ := ih later
      have kind : type.literals.isEmpty = false := by simpa using union
      rw [List.filter_cons_of_neg (by simp [kind]), List.filter_cons_of_pos (by simp [kind])]
      exact ⟨same, by rw [List.map_cons, List.map_cons, same']⟩
    next record =>
      obtain ⟨fields, _, next⟩ := Outcome.bind_ok.mp lowered
      obtain ⟨⟨others, otherUnions⟩, later, last⟩ := Outcome.bind_ok.mp next
      obtain ⟨rfl, rfl⟩ := Prod.mk.inj (Except.ok.inj last)
      obtain ⟨same, same'⟩ := ih later
      have kind : type.literals.isEmpty = true := by simpa using record
      rw [List.filter_cons_of_pos (by simp [kind]), List.filter_cons_of_neg (by simp [kind])]
      exact ⟨by rw [List.map_cons, List.map_cons, same], same'⟩

/-- What the plan of a document defines, by the declarations of the document. -/
theorem lowerBackendDocument_names {document : AxBackendDocument Expr Stmt} {plan : AxBackendPlan Code Step}
    (lowered : lowerBackendDocument lowering document = .ok plan) :
    plan.literalUnions.map (·.name) = documentTypes true document ∧
      plan.types.map (·.name) = documentTypes false document ∧
      plan.functions.map (·.name) = document.blocks.filterMap blockFunction ∧
      plan.handlers.flatMap planNames = (document.blocks.filterMap blockHandler).flatMap Handler.names := by
  obtain ⟨⟨records, unions⟩, types, next⟩ := Outcome.bind_ok.mp lowered
  obtain ⟨blocks, passed, last⟩ := Outcome.bind_ok.mp next
  obtain rfl := Except.ok.inj last
  obtain ⟨recordNames, unionNames⟩ := lowerTypeContracts_names types
  have functions := Outcome.flatMap_of_mapM passed fun block result here =>
    (lowerBlock_names here).1
  have handlers := Outcome.flatMap_of_mapM passed fun block result here =>
    (lowerBlock_names here).2
  refine ⟨unionNames, recordNames, ?_, ?_⟩
  · rw [List.map_flatMap, List.filterMap_eq_flatMap_toList, functions]
  · rw [List.flatMap_assoc, List.filterMap_eq_flatMap_toList, List.flatMap_assoc, handlers]

theorem helpers_names (rendering : Rendering Code Step) (plan : AxBackendPlan Code Step) (names : List String) :
    (helpers rendering plan names).map (fun item => item.name.toList) = names.map String.toList := by
  rw [helpers, List.map_map]
  rfl

theorem named_names (names : List String) :
    (names.map Declaration.named).flatMap Declaration.names = names.map String.toList := by
  induction names with
  | nil => rfl
  | cons name rest ih =>
    rw [List.map_cons, List.flatMap_cons, ih]
    rfl

theorem handler_declarations (handlers : List Handler) :
    (handlers.map Declaration.handler).flatMap Declaration.names = handlers.flatMap Handler.names := by
  simp [Declaration.names, List.flatMap_def, Function.comp_def]

/-- The items of a module that come from a list of the plan, one by one. -/
theorem items_names {α : Type} {sources : List α} {items : List Item} {name : α → String}
    {render : α → Except AxBackendCodegenError String}
    (rendered : (sources.mapM fun source => do
      let text ← render source
      return (⟨name source, text⟩ : Item)) = .ok items) :
    items.map (fun item => item.name.toList) = (sources.map name).map String.toList := by
  rw [List.map_map]
  refine Outcome.map_of_mapM rendered fun source item here => ?_
  obtain ⟨text, _, last⟩ := Outcome.bind_ok.mp here
  obtain rfl := Except.ok.inj last
  rfl

theorem generateBackendModule_names {rendering : Rendering Code Step} {plan : AxBackendPlan Code Step}
    {items : List Item} (generated : generateBackendModule rendering plan = .ok items) :
    items.map (fun item => item.name.toList) =
      leadingHelpers.map String.toList ++ (plan.literalUnions.map (·.name)).map String.toList ++
        (plan.types.map (·.name)).map String.toList ++ middleHelpers.map String.toList ++
        (plan.functions.map (·.name)).map String.toList ++ plan.handlers.flatMap planNames ++
        dispatchers.map String.toList := by
  obtain ⟨_, _, generated⟩ := Outcome.bind_ok.mp generated
  obtain ⟨_, _, generated⟩ := Outcome.bind_ok.mp generated
  obtain ⟨unions, unionItems, generated⟩ := Outcome.bind_ok.mp generated
  obtain ⟨records, recordItems, generated⟩ := Outcome.bind_ok.mp generated
  obtain ⟨functions, functionItems, generated⟩ := Outcome.bind_ok.mp generated
  obtain ⟨handlers, handlerItems, generated⟩ := Outcome.bind_ok.mp generated
  obtain rfl := Except.ok.inj generated
  have handlerNames := Outcome.map_of_mapM handlerItems fun handler items here => renderHandler_names here
  simp only [List.map_append, helpers_names, items_names unionItems, items_names recordItems,
    items_names functionItems, List.map_flatten, handlerNames, List.flatMap_def]

theorem module_names {documents : List (AxBackendDocument Expr Stmt)}
    {plans : List (AxBackendPlan Code Step)} {rendering : Rendering Code Step} {items : List Item}
    (lowered : documents.mapM (lowerBackendDocument lowering) = .ok plans)
    (generated : generateBackendModule rendering (bundle plans) = .ok items) :
    items.map (fun item => item.name.toList) = (declarations documents).flatMap Declaration.names := by
  have unions : (bundle plans).literalUnions.map (·.name) = documents.flatMap (documentTypes true) := by
    rw [bundle, List.map_flatMap]
    exact Outcome.flatMap_of_mapM lowered fun document plan here => (lowerBackendDocument_names here).1
  have records : (bundle plans).types.map (·.name) = documents.flatMap (documentTypes false) := by
    rw [bundle, List.map_flatMap]
    exact Outcome.flatMap_of_mapM lowered fun document plan here => (lowerBackendDocument_names here).2.1
  have functions : (bundle plans).functions.map (·.name) =
      documents.flatMap fun document => document.blocks.filterMap blockFunction := by
    rw [bundle, List.map_flatMap]
    exact Outcome.flatMap_of_mapM lowered fun document plan here => (lowerBackendDocument_names here).2.2.1
  have handlers : (bundle plans).handlers.flatMap planNames =
      (documents.flatMap fun document => document.blocks.filterMap blockHandler).flatMap Handler.names := by
    rw [bundle, List.flatMap_assoc, List.flatMap_assoc]
    exact Outcome.flatMap_of_mapM lowered fun document plan here => (lowerBackendDocument_names here).2.2.2
  rw [generateBackendModule_names generated, declarations, unions, records, functions, handlers]
  simp only [List.flatMap_append, named_names, handler_declarations]

theorem declarations_proper (documents : List (AxBackendDocument Expr Stmt)) :
    ∀ declaration ∈ declarations documents, declaration.Proper := by
  intro declaration member
  cases declaration with
  | named name => trivial
  | handler entry =>
    simp only [declarations, List.mem_append, List.mem_map, reduceCtorEq, and_false, exists_false, or_false,
      false_or] at member
    obtain ⟨handler, found, same⟩ := member
    obtain rfl := Declaration.handler.inj same
    obtain ⟨document, _, inside⟩ := List.mem_flatMap.mp found
    obtain ⟨block, _, declared⟩ := List.mem_filterMap.mp inside
    exact blockHandler_proper declared

/-- The module of a bundle defines every name once exactly where no two declarations of the
bundle clash. -/
theorem module_names_distinct_iff {documents : List (AxBackendDocument Expr Stmt)}
    {plans : List (AxBackendPlan Code Step)} {rendering : Rendering Code Step} {items : List Item}
    (lowered : documents.mapM (lowerBackendDocument lowering) = .ok plans)
    (generated : generateBackendModule rendering (bundle plans) = .ok items) :
    (items.map Item.name).Nodup ↔
      (declarations documents).Pairwise fun first second => ¬ Clash first second := by
  rw [← names_nodup_iff (declarations_proper documents), ← module_names lowered generated]
  rw [show items.map (fun item => item.name.toList) = (items.map Item.name).map String.toList by
    rw [List.map_map]; rfl]
  exact (List.nodup_map_iff (fun _ _ => String.toList_inj.mp)).symm

/-- Statements and bodies of no content. -/
def emptySteps : Steps Unit Unit Unit Unit := ⟨fun _ => (), fun _ _ _ => .ok ()⟩

def emptyRendering : Rendering Unit Unit :=
  ⟨fun _ => .ok (), fun _ => .ok "", fun _ => .ok "", fun _ _ => .ok "", fun _ => "", fun _ _ => .ok "",
    fun _ _ => ""⟩

/-- A parameter segment and a static segment of the same word. -/
def usersRoutes : AxBackendDocument Unit Unit :=
  ⟨[], [.route ⟨"GET", "/users/:id", none, [], []⟩, .route ⟨"GET", "/users/id", none, [], []⟩]⟩

def usersActions : AxBackendDocument Unit Unit :=
  ⟨[⟨"User", [⟨"name", "String"⟩], [], true⟩],
    [.route ⟨"GET", "/users/:id", none, [], []⟩,
      .action ⟨"saveUser", none, [⟨"name", "String", false, none⟩], [], true⟩]⟩

theorem module_names_distinct_users :
    ∃ plans items, [usersActions].mapM (lowerBackendDocument emptySteps) = .ok plans ∧
      generateBackendModule emptyRendering (bundle plans) = .ok items ∧ (items.map Item.name).Nodup := by
  refine ⟨_, _, rfl, rfl, ?_⟩
  exact (@module_names_distinct_iff _ _ _ _ emptySteps [usersActions] _ emptyRendering _ rfl rfl).mpr
    (by decide +kernel)

/-- Two routes of one file become two functions of one name. -/
theorem users_routes_collide :
    ∃ plans items, [usersRoutes].mapM (lowerBackendDocument emptySteps) = .ok plans ∧
      generateBackendModule emptyRendering (bundle plans) = .ok items ∧
      ¬ (items.map Item.name).Nodup ∧
      ((bundle plans).handlers.map (·.rustFn)) = ["route_get_users_id", "route_get_users_id"] := by
  refine ⟨_, _, rfl, rfl, by decide +kernel, by decide +kernel⟩

end Emission

end Axonyx.Core.Backend
