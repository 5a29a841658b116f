import Axonyx.Text

/-! Scanning a text for what stands outside every literal and every pair of brackets. Rules
say what quotes a literal, which character takes the meaning from the next one inside, and
which brackets count. -/
namespace Nesting

structure Rules where
  quotes : List Char
  escape : Option Char
  opens : List Char
  closes : List Char

structure State where
  quote : Option Char
  escaped : Bool
  depth : Nat
  deriving DecidableEq, Repr

def start : State := ⟨none, false, 0⟩

def State.next (rules : Rules) (s : State) (c : Char) : State :=
  match s.quote with
  | some quote =>
    if s.escaped then { s with escaped := false }
    else if rules.escape = some c then { s with escaped := true }
    else if c = quote then { s with quote := none }
    else s
  | none =>
    if c ∈ rules.quotes then { s with quote := some c }
    else if c ∈ rules.opens then { s with depth := s.depth + 1 }
    else if c ∈ rules.closes then { s with depth := s.depth - 1 }
    else s

def run (rules : Rules) : State → List Char → State := List.foldl (State.next rules)

/-- Neither a quote nor a bracket. -/
def Rules.plain (rules : Rules) (c : Char) : Bool :=
  c ∉ rules.quotes && c ∉ rules.opens && c ∉ rules.closes

def State.top (rules : Rules) (s : State) (c : Char) : Bool :=
  s.quote.isNone && s.depth == 0 && rules.plain c

/-- The places outside literals and brackets: what is before, backwards, and what follows. -/
def tops (rules : Rules) : State → List Char → List Char → List (List Char × List Char)
  | _, _, [] => []
  | s, before, c :: rest =>
    let later := tops rules (s.next rules c) (c :: before) rest
    if s.top rules c then (before, c :: rest) :: later else later

/-- The parts between the delimiters outside literals and brackets. -/
def pieces (rules : Rules) (delimiter : Char) : State → List Char → List (List Char)
  | _, [] => [[]]
  | s, c :: rest =>
    if s.top rules c && c == delimiter then [] :: pieces rules delimiter s rest
    else (pieces rules delimiter (s.next rules c) rest).modifyHead (c :: ·)

/-- A bracket that closes the last open one. -/
def State.closing (rules : Rules) (s : State) (c : Char) : Bool :=
  s.quote.isNone && c ∉ rules.quotes && c ∉ rules.opens && c ∈ rules.closes && s.depth ≤ 1

/-- The bracket at the front closes at the end of the text. -/
def wraps (rules : Rules) : State → List Char → Bool
  | s, [] => s.depth == 0
  | s, c :: rest => !(s.closing rules c && !rest.isEmpty) && wraps rules (s.next rules c) rest

/-- The text cut at the bracket that closes the last open one. -/
def cut (rules : Rules) : State → List Char → List Char → Option (List Char × List Char)
  | _, _, [] => none
  | s, before, c :: rest =>
    if s.closing rules c then some (before, rest) else cut rules (s.next rules c) (c :: before) rest

section Appending

variable {rules : Rules}

@[simp] theorem run_nil (s : State) : run rules s [] = s := rfl

@[simp] theorem run_cons (s : State) (c : Char) (rest : List Char) :
    run rules s (c :: rest) = run rules (s.next rules c) rest := rfl

theorem run_append (s : State) (a b : List Char) :
    run rules s (a ++ b) = run rules (run rules s a) b := List.foldl_append

theorem next_plain {c : Char} (plain : rules.plain c = true) (depth : Nat) :
    State.next rules ⟨none, false, depth⟩ c = ⟨none, false, depth⟩ := by
  simp only [Rules.plain, Bool.and_eq_true, decide_eq_true_eq] at plain
  simp [State.next, plain]

theorem tops_append (s : State) (before a b : List Char) :
    tops rules s before (a ++ b) =
      (tops rules s before a).map (fun place => (place.1, place.2 ++ b)) ++
        tops rules (run rules s a) (a.reverse ++ before) b := by
  induction a generalizing s before with
  | nil => rfl
  | cons c rest ih =>
    rw [List.cons_append, tops, tops, ih]
    by_cases top : s.top rules c <;> simp [top]

theorem pieces_ne_nil (delimiter : Char) (s : State) (text : List Char) :
    pieces rules delimiter s text ≠ [] := by
  induction text generalizing s with
  | nil => simp [pieces]
  | cons c rest ih =>
    unfold pieces
    split
    · simp
    · obtain ⟨first, others, shape⟩ := List.exists_cons_of_ne_nil (ih (s.next rules c))
      simp [shape]

end Appending

section Places

variable {rules : Rules}

/-- A place cuts the text in two. -/
theorem mem_tops {s : State} {before text : List Char} {place : List Char × List Char}
    (member : place ∈ tops rules s before text) :
    place.1.reverse ++ place.2 = before.reverse ++ text ∧
      ∃ c rest, place.2 = c :: rest ∧ rules.plain c = true := by
  induction text generalizing s before with
  | nil => simp [tops] at member
  | cons c rest ih =>
    rw [tops] at member
    split at member
    · next top =>
      rcases List.mem_cons.mp member with rfl | later
      · refine ⟨rfl, c, rest, rfl, ?_⟩
        simp only [State.top, Bool.and_eq_true] at top
        exact top.2
      · have split := ih later
        simp only [List.reverse_cons, List.append_assoc, List.singleton_append] at split
        exact split
    · have split := ih member
      simp only [List.reverse_cons, List.append_assoc, List.singleton_append] at split
      exact split

/-- The pieces with the delimiters between them are the text. -/
theorem intercalate_pieces (delimiter : Char) (s : State) (text : List Char) :
    [delimiter].intercalate (pieces rules delimiter s text) = text := by
  induction text generalizing s with
  | nil => rfl
  | cons c rest ih =>
    unfold pieces
    split
    · next here =>
      simp only [Bool.and_eq_true, beq_iff_eq] at here
      have more := ih s
      obtain ⟨first, others, shape⟩ := List.exists_cons_of_ne_nil (@pieces_ne_nil rules delimiter s rest)
      rw [shape] at more ⊢
      rw [List.intercalate_cons_cons, more, here.2]
      rfl
    · have more := ih (s.next rules c)
      obtain ⟨first, others, shape⟩ :=
        List.exists_cons_of_ne_nil (@pieces_ne_nil rules delimiter (s.next rules c) rest)
      rw [shape] at more ⊢
      rw [List.modifyHead_cons]
      cases others with
      | nil => simpa using more
      | cons second others =>
        rw [List.intercalate_cons_cons] at more ⊢
        rw [List.cons_append, List.cons_append, more]

theorem sublist_intercalate (separator : List Char) {parts : List (List Char)} {part : List Char}
    (member : part ∈ parts) : part.Sublist (separator.intercalate parts) := by
  induction parts with
  | nil => cases member
  | cons first rest ih =>
    cases rest with
    | nil =>
      obtain rfl := List.mem_singleton.mp member
      rw [List.intercalate_singleton]
    | cons second rest =>
      rw [List.intercalate_cons_cons]
      rcases List.mem_cons.mp member with rfl | later
      · exact (List.sublist_append_left _ _).trans (List.sublist_append_left _ _)
      · exact (ih later).trans (List.sublist_append_right _ _)

theorem count_intercalate (x delimiter : Char) (parts : List (List Char)) :
    ([delimiter].intercalate parts).count x =
      (parts.map (List.count x)).sum + if delimiter = x then parts.length - 1 else 0 := by
  induction parts with
  | nil => simp [List.intercalate_nil]
  | cons first rest ih =>
    cases rest with
    | nil => simp
    | cons second rest =>
      rw [List.intercalate_cons_cons, List.count_append, List.count_append, ih]
      by_cases same : delimiter = x
      · simp [same]
        omega
      · simp [same]

theorem cut_split {s : State} {before text : List Char} {parts : List Char × List Char}
    (found : cut rules s before text = some parts) :
    ∃ c ∈ rules.closes, parts.1.reverse ++ c :: parts.2 = before.reverse ++ text := by
  induction text generalizing s before with
  | nil => cases found
  | cons c rest ih =>
    rw [cut] at found
    split at found
    · next closing =>
      obtain rfl := Option.some.inj found
      simp only [State.closing, Bool.and_eq_true, decide_eq_true_eq] at closing
      exact ⟨c, closing.1.2, rfl⟩
    · obtain ⟨d, member, split⟩ := ih found
      refine ⟨d, member, ?_⟩
      rw [split]
      simp

end Places

section Levels

variable {rules : Rules}

def State.lift (s : State) (k : Nat) : State := { s with depth := s.depth + k }

/-- A step that closes no bracket but one of the text itself. -/
def State.climb (rules : Rules) (s : State) (c : Char) : Option State :=
  if s.closing rules c && s.depth == 0 then none else some (s.next rules c)

/-- Every bracket the text closes it has opened, and it ends where it starts. -/
def Level (rules : Rules) (text : List Char) : Prop :=
  text.foldlM (State.climb rules) start = some start

theorem next_lift {s s' : State} {c : Char} (step : s.climb rules c = some s') (k : Nat) :
    (s.lift k).next rules c = s'.lift k ∧ (s.lift (k + 1)).closing rules c = false := by
  unfold State.climb at step
  split at step
  · cases step
  · next inner =>
    obtain rfl := Option.some.inj step
    obtain ⟨quote, escaped, depth⟩ := s
    cases quote with
    | some quote =>
      refine ⟨?_, by simp [State.closing, State.lift]⟩
      by_cases passed : escaped = true
      · simp [State.next, State.lift, passed]
      · by_cases escape : rules.escape = some c
        · simp [State.next, State.lift, passed, escape]
        · by_cases ends : c = quote
          · subst ends
            simp [State.next, State.lift, passed, escape]
          · simp [State.next, State.lift, passed, escape, ends]
    | none =>
      by_cases quoted : c ∈ rules.quotes
      · simp [State.closing, State.next, State.lift, quoted]
      · by_cases opened : c ∈ rules.opens
        · simp [State.closing, State.next, State.lift, quoted, opened, Nat.add_right_comm]
        · by_cases closed : c ∈ rules.closes
          · have above : depth ≠ 0 := by
              rintro rfl
              simp [State.closing, quoted, opened, closed] at inner
            have less : depth + k - 1 = depth - 1 + k := by omega
            have deep : ¬depth + (k + 1) ≤ 1 := by omega
            simp [State.closing, State.next, State.lift, quoted, opened, closed, less, deep]
          · simp [State.closing, State.next, State.lift, quoted, opened, closed]

theorem top_lift (s : State) (k : Nat) (c : Char) : (s.lift (k + 1)).top rules c = false := by
  simp [State.top, State.lift]

/-- Inside a bracket a text that closes only its own brackets is passed over. -/
theorem lifted {s s' : State} {text : List Char}
    (climbs : text.foldlM (State.climb rules) s = some s') (k : Nat) (before more : List Char) :
    run rules (s.lift k) text = s'.lift k ∧ tops rules (s.lift (k + 1)) before text = [] ∧
      wraps rules (s.lift (k + 1)) (text ++ more) = wraps rules (s'.lift (k + 1)) more ∧
      cut rules (s.lift (k + 1)) before (text ++ more) =
        cut rules (s'.lift (k + 1)) (text.reverse ++ before) more := by
  induction text generalizing s before with
  | nil =>
    obtain rfl := Option.some.inj climbs
    exact ⟨rfl, rfl, rfl, rfl⟩
  | cons c rest ih =>
    rw [List.foldlM_cons] at climbs
    obtain ⟨middle, step, later⟩ := Option.bind_eq_some_iff.mp climbs
    obtain ⟨low, closing⟩ := next_lift step k
    have high := (next_lift step (k + 1)).1
    obtain ⟨ends, hidden, wrapped, found⟩ := ih later (c :: before)
    refine ⟨?_, ?_, ?_, ?_⟩
    · rw [run_cons, low, ends]
    · rw [tops, top_lift, if_neg (by simp), high, hidden]
    · rw [List.cons_append, wraps, closing, high, wrapped]
      rfl
    · rw [List.cons_append, cut, closing, if_neg (by simp), high, found]
      simp

theorem level_nil : Level rules [] := rfl

theorem Level.append {a b : List Char} (first : Level rules a) (second : Level rules b) :
    Level rules (a ++ b) := by
  rw [Level, List.foldlM_append, first]
  exact second

theorem level_plain {text : List Char} (plain : ∀ c ∈ text, rules.plain c = true) : Level rules text := by
  induction text with
  | nil => rfl
  | cons c rest ih =>
    have here := plain c List.mem_cons_self
    have step : start.climb rules c = some start := by
      simp only [State.climb, start, next_plain here 0]
      simp only [Rules.plain, Bool.and_eq_true, decide_eq_true_eq] at here
      simp [State.closing, here]
    rw [Level, List.foldlM_cons, step]
    exact ih fun d member => plain d (List.mem_cons_of_mem c member)

/-- A bracket around a level text. -/
theorem Level.group {text : List Char} (level : Level rules text) {o c : Char} (opens : o ∈ rules.opens)
    (closes : c ∈ rules.closes) (quoted : o ∉ rules.quotes ∧ c ∉ rules.quotes) (other : c ∉ rules.opens) :
    Level rules (o :: (text ++ [c])) := by
  have deeper : State.climb rules start o = some (start.lift 1) := by
    simp [State.climb, State.closing, State.next, start, State.lift, quoted.1, opens]
  have inner : text.foldlM (State.climb rules) (start.lift 1) = some (start.lift 1) := by
    suffices general : ∀ (s s' : State) (text : List Char),
        text.foldlM (State.climb rules) s = some s' →
          text.foldlM (State.climb rules) (s.lift 1) = some (s'.lift 1) from general _ _ _ level
    intro s s' text climbs
    induction text generalizing s with
    | nil => rw [← Option.some.inj climbs]; rfl
    | cons d rest ih =>
      rw [List.foldlM_cons] at climbs
      obtain ⟨middle, step, later⟩ := Option.bind_eq_some_iff.mp climbs
      have lifted : (s.lift 1).climb rules d = some (middle.lift 1) := by
        rw [State.climb, (next_lift step 0).2, (next_lift step 1).1]
        rfl
      rw [List.foldlM_cons, lifted]
      exact ih middle later
  rw [Level, List.foldlM_cons, deeper]
  change (text ++ [c]).foldlM (State.climb rules) (start.lift 1) = some start
  rw [List.foldlM_append, inner]
  simp [State.climb, State.closing, State.next, start, State.lift, quoted.2, closes, other]

theorem Level.run {text : List Char} (level : Level rules text) : run rules start text = start :=
  (lifted level 0 [] []).1

/-- A level text that shows nothing outside literals and brackets. -/
structure Hidden (rules : Rules) (text : List Char) : Prop where
  level : Level rules text
  silent : ∀ before, tops rules start before text = []

/-- A pair of brackets the rules count. -/
structure Rules.Pair (rules : Rules) (o c : Char) : Prop where
  opens : o ∈ rules.opens
  closes : c ∈ rules.closes
  quoted : o ∉ rules.quotes ∧ c ∉ rules.quotes
  other : c ∉ rules.opens

variable {o c : Char} {text : List Char}

theorem next_open (pair : rules.Pair o c) : start.next rules o = start.lift 1 := by
  simp [State.next, start, State.lift, pair.quoted.1, pair.opens]

theorem next_close (pair : rules.Pair o c) : (start.lift 1).next rules c = start := by
  simp [State.next, start, State.lift, pair.quoted.2, pair.closes, pair.other]

theorem closing_close (pair : rules.Pair o c) : (start.lift 1).closing rules c = true := by
  simp [State.closing, start, State.lift, pair.quoted.2, pair.closes, pair.other]

theorem closing_open (pair : rules.Pair o c) : start.closing rules o = false := by
  simp [State.closing, pair.opens]

theorem Hidden.group (level : Level rules text) (pair : rules.Pair o c) :
    Hidden rules (o :: (text ++ [c])) := by
  refine ⟨level.group pair.opens pair.closes pair.quoted pair.other, fun before => ?_⟩
  have shown : start.top rules o = false := by simp [State.top, Rules.plain, pair.opens]
  obtain ⟨ends, silent, _⟩ := lifted level 0 (o :: before) []
  have inner := (lifted level 1 [] []).1
  rw [tops, shown, if_neg (by simp), next_open pair, tops_append, silent, inner, tops, top_lift start 0]
  rfl

theorem wraps_group (level : Level rules text) (pair : rules.Pair o c) (more : List Char) :
    wraps rules start (o :: (text ++ c :: more)) = (more.isEmpty && wraps rules start more) := by
  have inner := (lifted level 0 [] (c :: more)).2.2.1
  rw [wraps, closing_open pair, next_open pair, inner, wraps, closing_close pair, next_close pair]
  simp

/-- What closes the bracket opened before a level text. -/
theorem cut_level (level : Level rules text) (pair : rules.Pair o c) (more : List Char) :
    cut rules start [] (o :: (text ++ c :: more)) = some (text.reverse ++ [o], more) := by
  have inner := (lifted level 0 [o] (c :: more)).2.2.2
  rw [cut, closing_open pair, if_neg (by simp), next_open pair, inner, cut, closing_close pair,
    if_pos rfl]

end Levels

section Literals

variable {rules : Rules} {quote : Char}

/-- A text that leaves a literal where it is: an escape takes one more character with it. -/
inductive Inside (escape quote : Char) : List Char → Prop where
  | nil : Inside escape quote []
  | plain {c : Char} {rest : List Char} (other : c ≠ escape ∧ c ≠ quote) (later : Inside escape quote rest) :
      Inside escape quote (c :: rest)
  | escaped {c : Char} {rest : List Char} (later : Inside escape quote rest) :
      Inside escape quote (escape :: c :: rest)

theorem Inside.append {escape : Char} {a b : List Char} (first : Inside escape quote a)
    (second : Inside escape quote b) : Inside escape quote (a ++ b) := by
  induction first with
  | nil => exact second
  | plain other _ ih => exact .plain other ih
  | escaped _ ih => exact .escaped ih

theorem climb_literal {s : State} (literal : s.quote.isSome = true) (c : Char) :
    s.climb rules c = some (s.next rules c) := by
  obtain ⟨_, _, _⟩ := s
  simp only [Option.isSome_iff_exists] at literal
  obtain ⟨quote, rfl⟩ := literal
  simp [State.climb, State.closing]

theorem top_literal {s : State} (literal : s.quote.isSome = true) (c : Char) : s.top rules c = false := by
  obtain ⟨quote, shape⟩ := Option.isSome_iff_exists.mp literal
  simp [State.top, shape]

/-- A literal is one hidden piece. -/
theorem Hidden.literal {escape : Char} {body : List Char} (escapes : rules.escape = some escape)
    (inside : Inside escape quote body) (quotes : quote ∈ rules.quotes) (other : quote ≠ escape) :
    Hidden rules (quote :: (body ++ [quote])) := by
  have opens : start.next rules quote = ⟨some quote, false, 0⟩ := by simp [State.next, start, quotes]
  have ends : State.next rules ⟨some quote, false, 0⟩ quote = start := by
    simp [State.next, start, escapes, Ne.symm other]
  have skip : ∀ before, body.foldlM (State.climb rules) ⟨some quote, false, 0⟩ = some ⟨some quote, false, 0⟩ ∧
      run rules ⟨some quote, false, 0⟩ body = ⟨some quote, false, 0⟩ ∧
        tops rules ⟨some quote, false, 0⟩ before body = [] := by
    induction inside with
    | nil => exact fun _ => ⟨rfl, rfl, rfl⟩
    | @plain d rest different _ ih =>
      intro before
      have stays : State.next rules ⟨some quote, false, 0⟩ d = ⟨some quote, false, 0⟩ := by
        simp [State.next, escapes, different.2, Ne.symm different.1]
      obtain ⟨climbs, runs, silent⟩ := ih (d :: before)
      refine ⟨?_, by rw [run_cons, stays, runs], ?_⟩
      · rw [List.foldlM_cons, climb_literal rfl, stays]
        exact climbs
      · rw [tops, top_literal rfl, stays, silent]
        rfl
    | @escaped d rest _ ih =>
      intro before
      have marks : State.next rules ⟨some quote, false, 0⟩ escape = ⟨some quote, true, 0⟩ := by
        simp [State.next, escapes]
      have passes : State.next rules ⟨some quote, true, 0⟩ d = ⟨some quote, false, 0⟩ := by
        simp [State.next]
      obtain ⟨climbs, runs, silent⟩ := ih (d :: escape :: before)
      refine ⟨?_, by rw [run_cons, run_cons, marks, passes, runs], ?_⟩
      · rw [List.foldlM_cons, climb_literal rfl, marks]
        change (d :: rest).foldlM (State.climb rules) ⟨some quote, true, 0⟩ = _
        rw [List.foldlM_cons, climb_literal rfl, passes]
        exact climbs
      · rw [tops, top_literal rfl, marks, tops, top_literal rfl, passes, silent]
        rfl
  constructor
  · rw [Level, List.foldlM_cons]
    have first : start.climb rules quote = some ⟨some quote, false, 0⟩ := by
      rw [State.climb, opens]
      simp [State.closing, quotes]
    rw [first]
    change (body ++ [quote]).foldlM (State.climb rules) ⟨some quote, false, 0⟩ = some start
    rw [List.foldlM_append, (skip []).1]
    change List.foldlM (State.climb rules) ⟨some quote, false, 0⟩ [quote] = some start
    rw [List.foldlM_cons, climb_literal rfl, ends]
    rfl
  · intro before
    have shown : start.top rules quote = false := by simp [State.top, Rules.plain, quotes]
    rw [tops, shown, opens, tops_append, (skip _).2.2, (skip before).2.1, tops, top_literal rfl, ends]
    rfl

end Literals

section Parts

variable {rules : Rules} {delimiter : Char}

/-- The characters outside literals and brackets. -/
def topChars (rules : Rules) : State → List Char → List Char
  | _, [] => []
  | s, c :: rest =>
    if s.top rules c then c :: topChars rules (s.next rules c) rest
    else topChars rules (s.next rules c) rest

/-- A delimiter with a blank behind it between any two parts. -/
def joined (delimiter : Char) : List (List Char) → List Char
  | [] => []
  | [part] => part
  | part :: rest => part ++ delimiter :: ' ' :: joined delimiter rest

/-- The scanner meets the delimiters between the parts outside literals and brackets, and no
others. -/
def Apart (rules : Rules) (delimiter : Char) : List (List Char) → Prop
  | [] => True
  | [part] => delimiter ∉ topChars rules start part
  | part :: rest => delimiter ∉ topChars rules start part ∧ run rules start part = start ∧
      Apart rules delimiter rest

instance decidableApart (rules : Rules) (delimiter : Char) : ∀ parts, Decidable (Apart rules delimiter parts)
  | [] => inferInstanceAs (Decidable True)
  | [part] => inferInstanceAs (Decidable (delimiter ∉ topChars rules start part))
  | part :: next :: rest =>
    have := decidableApart rules delimiter (next :: rest)
    inferInstanceAs (Decidable (delimiter ∉ topChars rules start part ∧ run rules start part = start ∧
      Apart rules delimiter (next :: rest)))

theorem next_top {s : State} {c : Char} (top : s.top rules c = true) : s.next rules c = s := by
  obtain ⟨quote, escaped, depth⟩ := s
  simp only [State.top, Rules.plain, Bool.and_eq_true, Option.isNone_iff_eq_none, decide_eq_true_eq] at top
  obtain ⟨⟨rfl, _⟩, plain⟩ := top
  simp [State.next, plain]

/-- Up to the end of a text without delimiters outside, nothing is cut. -/
theorem pieces_append {s : State} {text : List Char} (free : delimiter ∉ topChars rules s text)
    (more : List Char) : pieces rules delimiter s (text ++ more) =
      (pieces rules delimiter (run rules s text) more).modifyHead (text ++ ·) := by
  induction text generalizing s with
  | nil => cases shape : pieces rules delimiter s more <;> simp [shape]
  | cons c rest ih =>
    rw [topChars] at free
    by_cases top : s.top rules c = true
    · rw [if_pos top] at free
      have other : c ≠ delimiter := fun same => free (by simp [same])
      rw [List.cons_append, pieces, if_neg (by simp [other]), ih (fun member => free (by simp [member]))]
      rw [run_cons, List.modifyHead_modifyHead]
      rfl
    · rw [if_neg top] at free
      rw [List.cons_append, pieces, if_neg (by simp [top]), ih free, run_cons, List.modifyHead_modifyHead]
      rfl

theorem pieces_whole {text : List Char} (free : delimiter ∉ topChars rules start text) :
    pieces rules delimiter start text = [text] := by
  have whole := pieces_append free []
  rw [List.append_nil] at whole
  rw [whole]
  simp [pieces]

theorem topChars_eq (s : State) (before text : List Char) :
    topChars rules s text = (tops rules s before text).filterMap fun place => place.2.head? := by
  induction text generalizing s before with
  | nil => rfl
  | cons c rest ih =>
    rw [topChars, tops, ih (s.next rules c) (c :: before)]
    by_cases top : s.top rules c = true <;> simp [top]

theorem Hidden.topChars {text : List Char} (hidden : Hidden rules text) : topChars rules start text = [] := by
  rw [topChars_eq start [], hidden.silent, List.filterMap_nil]

theorem mem_of_topChars {s : State} {text : List Char} {c : Char} (member : c ∈ topChars rules s text) :
    c ∈ text := by
  induction text generalizing s with
  | nil => cases member
  | cons d rest ih =>
    rw [Nesting.topChars] at member
    split at member
    · rcases List.mem_cons.mp member with rfl | later
      · exact List.mem_cons_self
      · exact List.mem_cons_of_mem d (ih later)
    · exact List.mem_cons_of_mem d (ih member)

/-- Parts with nothing but the delimiter between them. -/
theorem pieces_intercalate (plain : rules.plain delimiter = true) {first : List Char} {rest : List (List Char)}
    (apart : Apart rules delimiter (first :: rest)) :
    pieces rules delimiter start ([delimiter].intercalate (first :: rest)) = first :: rest := by
  induction rest generalizing first with
  | nil =>
    rw [List.intercalate_singleton]
    exact pieces_whole apart
  | cons second rest ih =>
    obtain ⟨free, ends, later⟩ := apart
    have shown : start.top rules delimiter = true := by simp [State.top, start, plain]
    rw [List.intercalate_cons_cons, List.append_assoc, pieces_append free, ends, List.singleton_append, pieces,
      if_pos (by simp [shown]), ih later]
    simp

/-- Level parts that show no delimiter outside literals and brackets. -/
theorem apart_of_level {parts : List (List Char)} (level : ∀ part ∈ parts, Level rules part)
    (free : ∀ part ∈ parts, delimiter ∉ Nesting.topChars rules start part) : Apart rules delimiter parts := by
  induction parts with
  | nil => trivial
  | cons first rest ih =>
    have here := free first List.mem_cons_self
    cases rest with
    | nil => exact here
    | cons second rest =>
      refine ⟨here, (level first List.mem_cons_self).run, ?_⟩
      exact ih (fun part member => level part (List.mem_cons_of_mem first member))
        fun part member => free part (List.mem_cons_of_mem first member)

theorem pieces_joined (plain : rules.plain delimiter = true) (blank : rules.plain ' ' = true)
    (other : delimiter ≠ ' ') {first : List Char} {rest : List (List Char)}
    (apart : Apart rules delimiter (first :: rest)) :
    pieces rules delimiter start (joined delimiter (first :: rest)) = first :: rest.map (' ' :: ·) := by
  induction rest generalizing first with
  | nil => exact pieces_whole apart
  | cons second rest ih =>
    obtain ⟨free, ends, later⟩ := apart
    have shown (c : Char) (plain : rules.plain c = true) : start.top rules c = true := by
      simp [State.top, start, plain]
    rw [joined, pieces_append free, ends, pieces, shown delimiter plain]
    · rw [if_pos (by simp), pieces, shown ' ' blank, if_neg (by simp [Ne.symm other]),
        next_top (shown ' ' blank), ih later]
      simp
    · exact List.cons_ne_nil second rest

end Parts

section Converse

variable {rules : Rules}

/-- An escape is pending only inside a literal. -/
def State.Settled (s : State) : Prop := s.quote = none → s.escaped = false

theorem settled_start : start.Settled := fun _ => rfl

theorem State.Settled.next {s : State} (settled : s.Settled) (c : Char) : (s.next rules c).Settled := by
  obtain ⟨quote, escaped, depth⟩ := s
  cases quote with
  | some quote =>
    intro ends
    simp only [State.next] at ends ⊢
    split at ends
    · cases ends
    · next plain =>
      split at ends
      · cases ends
      · next other =>
        rw [if_neg plain, if_neg other]
        split <;> simpa using plain
  | none =>
    have plain : escaped = false := settled rfl
    intro ends
    simp only [State.next] at ends ⊢
    split at ends
    · cases ends
    · next other =>
      rw [if_neg other]
      split
      · exact plain
      · split <;> exact plain

theorem cut_length {s : State} {before text : List Char} {parts : List Char × List Char}
    (found : cut rules s before text = some parts) : parts.2.length < text.length := by
  induction text generalizing s before with
  | nil => cases found
  | cons c rest ih =>
    rw [cut] at found
    split at found
    · obtain rfl := Option.some.inj found
      exact Nat.lt_succ_self _
    · exact (ih found).trans (Nat.lt_succ_self _)

/-- A cut behind a text shows that the text closes only its own brackets. -/
theorem climbs_of_cut {s : State} (settled : s.Settled) {text before behind more : List Char} {c : Char}
    (found : cut rules (s.lift 1) before (text ++ c :: more) = some (behind, more)) :
    text.foldlM (State.climb rules) s = some start := by
  induction text generalizing s before with
  | nil =>
    rw [List.nil_append, cut] at found
    split at found
    · next closing =>
      obtain ⟨quote, escaped, depth⟩ := s
      simp only [State.closing, State.lift, Bool.and_eq_true, Option.isNone_iff_eq_none, decide_eq_true_eq] at closing
      obtain ⟨⟨⟨⟨rfl, _⟩, _⟩, _⟩, level⟩ := closing
      have shallow : depth + 1 ≤ 1 := of_decide_eq_true level
      obtain rfl : depth = 0 := by omega
      obtain rfl : escaped = false := settled rfl
      rfl
    · exact absurd (cut_length found) (Nat.lt_irrefl _)
  | cons d rest ih =>
    rw [List.cons_append, cut] at found
    split at found
    · have same := congrArg List.length (Prod.mk.inj (Option.some.inj found)).2
      rw [List.length_append, List.length_cons] at same
      omega
    · next inner =>
      have step : s.climb rules d = some (s.next rules d) := by
        rw [State.climb, if_neg]
        intro both
        apply inner
        simp only [State.closing, State.lift, Bool.and_eq_true, beq_iff_eq, decide_eq_true_eq] at both ⊢
        exact ⟨both.1.1, decide_eq_true (show s.depth + 1 ≤ 1 by omega)⟩
      rw [(next_lift step 1).1] at found
      rw [List.foldlM_cons, step]
      exact ih (settled.next d) found

theorem level_of_cut {text behind more : List Char} {o c : Char} (pair : rules.Pair o c)
    (found : cut rules start [] (o :: (text ++ c :: more)) = some (behind, more)) : Level rules text := by
  rw [cut, closing_open pair, if_neg (by simp), next_open pair] at found
  exact climbs_of_cut settled_start found

theorem State.Settled.run {s : State} (settled : s.Settled) (text : List Char) : (run rules s text).Settled := by
  induction text generalizing s with
  | nil => exact settled
  | cons c rest ih => exact ih (settled.next c)

/-- Outside literals and brackets the scan is where it starts. -/
theorem State.Settled.start_of_top {s : State} (settled : s.Settled) {c : Char} (top : s.top rules c = true) :
    s = start := by
  obtain ⟨quote, escaped, depth⟩ := s
  simp only [State.top, Bool.and_eq_true, Option.isNone_iff_eq_none, beq_iff_eq] at top
  obtain ⟨⟨rfl, rfl⟩, _⟩ := top
  obtain rfl : escaped = false := settled rfl
  rfl

/-- Two cuts of a text behind equally many of the character cut at are one. -/
theorem cut_at_count {x : Char} {p q a b : List Char} (whole : p ++ x :: a = q ++ x :: b)
    (counts : p.count x = q.count x) : p = q ∧ a = b := by
  have inside (front rest : List Char) : front.count x < (front ++ x :: rest).count x := by
    rw [List.count_append, List.count_cons_self]
    omega
  rcases List.append_eq_append_iff.mp whole with ⟨c, rfl, split⟩ | ⟨c, rfl, split⟩
  · cases c with
    | nil =>
      rw [List.nil_append] at split
      exact ⟨(List.append_nil p).symm, (List.cons.inj split).2⟩
    | cons d rest =>
      rw [← (List.cons.inj split).1] at counts
      exact absurd counts (inside p rest).ne
  · cases c with
    | nil =>
      rw [List.nil_append] at split
      exact ⟨List.append_nil q, (List.cons.inj split).2.symm⟩
    | cons d rest =>
      rw [← (List.cons.inj split).1] at counts
      exact absurd counts (inside q rest).ne'

variable {delimiter : Char}

theorem pieces_first {s : State} {part rest : List Char} {others : List (List Char)}
    (whole : pieces rules delimiter s (part ++ delimiter :: rest) = part :: others) :
    delimiter ∉ topChars rules s part ∧ (run rules s part).top rules delimiter = true ∧
      pieces rules delimiter (run rules s part) rest = others := by
  induction part generalizing s with
  | nil =>
    rw [List.nil_append, pieces] at whole
    split at whole
    · next here =>
      simp only [Bool.and_eq_true, beq_iff_eq] at here
      exact ⟨List.not_mem_nil, here.1, (List.cons.inj whole).2⟩
    · obtain ⟨first, more, shape⟩ := List.exists_cons_of_ne_nil
        (@pieces_ne_nil rules delimiter (s.next rules delimiter) rest)
      rw [shape] at whole
      cases (List.cons.inj whole).1
  | cons c part ih =>
    rw [List.cons_append, pieces] at whole
    split at whole
    · cases (List.cons.inj whole).1
    · next here =>
      obtain ⟨first, more, shape⟩ := List.exists_cons_of_ne_nil
        (@pieces_ne_nil rules delimiter (s.next rules c) (part ++ delimiter :: rest))
      rw [shape, List.modifyHead_cons] at whole
      obtain ⟨same, tail⟩ := List.cons.inj whole
      rw [(List.cons.inj same).2, tail] at shape
      obtain ⟨free, top, later⟩ := ih shape
      refine ⟨?_, top, later⟩
      rw [topChars]
      split
      · next shown =>
        have other : delimiter ≠ c := by
          rintro rfl
          exact here (by simp [shown])
        exact fun member => (List.mem_cons.mp member).elim other free
      · exact free

theorem pieces_single {s : State} {text part : List Char} (whole : pieces rules delimiter s text = [part]) :
    delimiter ∉ topChars rules s text := by
  induction text generalizing s part with
  | nil => exact List.not_mem_nil
  | cons c rest ih =>
    rw [pieces] at whole
    split at whole
    · exact absurd (List.cons.inj whole).2 (pieces_ne_nil delimiter s rest)
    · next here =>
      obtain ⟨first, more, shape⟩ := List.exists_cons_of_ne_nil
        (@pieces_ne_nil rules delimiter (s.next rules c) rest)
      rw [shape, List.modifyHead_cons] at whole
      rw [(List.cons.inj whole).2] at shape
      have free := ih shape
      rw [topChars]
      split
      · next shown =>
        have other : delimiter ≠ c := by
          rintro rfl
          exact here (by simp [shown])
        exact fun member => (List.mem_cons.mp member).elim other free
      · exact free

/-- A first piece with as many delimiters as the first part, with enough left for the other
parts, is the first part. -/
theorem pieces_step (blank : rules.plain ' ' = true) (other : delimiter ≠ ' ') {part tail first : List Char}
    {later : List (List Char)}
    (whole : pieces rules delimiter start (part ++ delimiter :: ' ' :: tail) = first :: later)
    (least : part.count delimiter ≤ first.count delimiter)
    (enough : tail.count delimiter + 1 ≤ (later.map (List.count delimiter)).sum + later.length) :
    first = part ∧ delimiter ∉ topChars rules start part ∧ run rules start part = start ∧
      ∃ next more, later = (' ' :: next) :: more ∧ pieces rules delimiter start tail = next :: more := by
  have joined := @intercalate_pieces rules delimiter start (part ++ delimiter :: ' ' :: tail)
  rw [whole] at joined
  have counts := count_intercalate delimiter delimiter (first :: later)
  rw [joined, if_pos rfl, List.map_cons, List.sum_cons, List.count_append, List.count_cons_self,
    List.count_cons_of_ne (Ne.symm other), List.length_cons] at counts
  have same : first = part := by
    cases later with
    | nil => simp at enough
    | cons second more =>
      rw [List.intercalate_cons_cons, List.append_assoc, List.singleton_append] at joined
      exact (cut_at_count joined (by omega)).1
  rw [same] at whole
  obtain ⟨free, top, rest⟩ := pieces_first whole
  have back := (settled_start.run part).start_of_top top
  refine ⟨same, free, back, ?_⟩
  have shown : start.top rules ' ' = true := by simp [State.top, start, blank]
  rw [back, pieces, if_neg (by simp [Ne.symm other]), next_top shown] at rest
  obtain ⟨next, more, shape⟩ := List.exists_cons_of_ne_nil (@pieces_ne_nil rules delimiter start tail)
  rw [shape, List.modifyHead_cons] at rest
  exact ⟨next, more, rest.symm, shape⟩

end Converse

end Nesting
