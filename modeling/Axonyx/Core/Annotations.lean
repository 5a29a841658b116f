import Axonyx.Core.JsonContract
import Mathlib.Data.List.Nodup

/-! The texts that `display_name` writes read back as their types. A written type is a name, or
the name of a generic around one or two written types. -/
namespace Axonyx.Core

open Text (Firm firm_solid firm_single trim_blank_start)

/-- A type and the text that `display_name` gives it. -/
inductive Written : AxType → List Char → Prop where
  | word (name : List Char) (legal : isTypeIdentifier name = true) :
      Written (namedType builtins (.ofList name)) name
  | one {wrapper : String} {wrap : AxType → AxType} {item : AxType} {text : List Char}
      (listed : (wrapper, Generic.one wrap) ∈ generics) (inner : Written item text) :
      Written (wrap item) (wrapper.toList ++ '<' :: (text ++ ['>']))
  | two {wrapper : String} {wrap : AxType → AxType → AxType} {first second : AxType} {left right : List Char}
      (listed : (wrapper, Generic.two wrap) ∈ generics) (start : Written first left)
      (rest : Written second right) :
      Written (wrap first second) (wrapper.toList ++ '<' :: (left ++ ',' :: ' ' :: (right ++ ['>'])))

section Texts

/-- A letter, a digit or an underscore. -/
def isNameChar (c : Char) : Bool := c.isAlphanum || c == '_'

theorem nameChar_solid {c : Char} (legal : isNameChar c = true) : Text.isWhitespace c = false := by
  have value : c.toNat = c.val.toNat := rfl
  simp only [isNameChar, Char.isAlphanum, Identifiers.isAlpha_eq, Identifiers.isUpper_eq, Identifiers.isLower_eq, Char.isDigit,
    Bool.or_eq_true, Bool.and_eq_true, decide_eq_true_eq, UInt32.le_iff_toNat_le, beq_iff_eq] at legal
  simp only [Text.isWhitespace, Bool.or_eq_false_iff, Bool.and_eq_false_iff, decide_eq_false_iff_not]
  rcases legal with ((upper | lower) | digit) | rfl
  · simp at upper; omega
  · simp at lower; omega
  · simp at digit; omega
  · decide

theorem nameChar_ne {c d : Char} (legal : isNameChar c = true) (off : isNameChar d = false) : c ≠ d := by
  rintro rfl
  rw [legal] at off
  cases off

theorem identifier_chars {name : List Char} (legal : isTypeIdentifier name = true) :
    name ≠ [] ∧ ∀ c ∈ name, isNameChar c = true := by
  cases name with
  | nil => cases legal
  | cons first rest =>
    simp only [isTypeIdentifier, Bool.and_eq_true, Bool.or_eq_true, beq_iff_eq] at legal
    refine ⟨List.cons_ne_nil first rest, fun c member => ?_⟩
    rcases List.mem_cons.mp member with rfl | later
    · rcases legal.1 with letter | rfl
      · simp [isNameChar, Char.isAlphanum, letter]
      · rfl
    · exact List.all_eq_true.mp legal.2 c later

/-- What the tables of wrappers and of built-in names say of each name in them. -/
theorem wrappers_checked :
    (∀ entry ∈ generics.map Prod.fst, isTypeIdentifier entry.toList = true) ∧
    (∀ first ∈ generics.map Prod.fst, ∀ second ∈ generics.map Prod.fst,
      first.toList <+: second.toList → first = second) ∧
    (generics.map Prod.fst).Nodup ∧ ∀ entry ∈ builtins, entry.2.displayName = entry.1 := by
  decide +kernel

theorem wrapper_legal {entry} (listed : entry ∈ generics) : isTypeIdentifier entry.1.toList = true :=
  wrappers_checked.1 _ (List.mem_map_of_mem listed)

theorem wrapper_chars {wrapper : String} {generic : Generic} (listed : (wrapper, generic) ∈ generics) :
    wrapper.toList ≠ [] ∧ ∀ c ∈ wrapper.toList, isNameChar c = true :=
  identifier_chars (wrapper_legal listed)

theorem firm_chars {text : List Char} (chars : text ≠ [] ∧ ∀ c ∈ text, isNameChar c = true) : Firm text :=
  firm_solid chars.1 fun c member => nameChar_solid (chars.2 c member)

theorem Written.firm {type : AxType} {text : List Char} (written : Written type text) : Firm text := by
  have closing : Firm ['>'] := firm_single (by decide)
  cases written with
  | word name legal => exact firm_chars (identifier_chars legal)
  | @one _ _ _ text listed inner =>
    exact (firm_chars (wrapper_chars listed)).around closing ('<' :: text)
  | @two _ _ _ _ left right listed start rest =>
    have whole := (firm_chars (wrapper_chars listed)).around closing ('<' :: (left ++ ',' :: ' ' :: right))
    simpa using whole

theorem angleDepth_open (depth : Nat) (rest : List Char) :
    angleDepth depth ('<' :: rest) = angleDepth (depth + 1) rest := by
  cases depth <;> rfl

theorem angleDepth_close (depth : Nat) (rest : List Char) :
    angleDepth (depth + 1) ('>' :: rest) = angleDepth depth rest :=
  rfl

theorem angleDepth_plain {c : Char} (opens : c ≠ '<') (closes : c ≠ '>') (depth : Nat) (rest : List Char) :
    angleDepth depth (c :: rest) = angleDepth depth rest := by
  cases depth <;> simp [angleDepth, opens, closes]

/-- A text of name characters leaves the depth as it is. -/
theorem angleDepth_word {word : List Char} (chars : ∀ c ∈ word, isNameChar c = true) (depth : Nat)
    (rest : List Char) : angleDepth depth (word ++ rest) = angleDepth depth rest := by
  induction word with
  | nil => rfl
  | cons c word ih =>
    have legal := chars c List.mem_cons_self
    rw [List.cons_append, angleDepth_plain (nameChar_ne legal (by decide)) (nameChar_ne legal (by decide)),
      ih fun d member => chars d (List.mem_cons_of_mem _ member)]

theorem Written.angleDepth {type : AxType} {text : List Char} (written : Written type text) (depth : Nat)
    (rest : List Char) : angleDepth depth (text ++ rest) = Core.angleDepth depth rest := by
  induction written generalizing depth rest with
  | word name legal => exact angleDepth_word (identifier_chars legal).2 depth rest
  | one listed inner ih =>
    rw [List.append_assoc, angleDepth_word (wrapper_chars listed).2, List.cons_append, List.append_assoc,
      angleDepth_open, ih, List.singleton_append, angleDepth_close]
  | two listed start next ihStart ihNext =>
    rw [List.append_assoc, angleDepth_word (wrapper_chars listed).2]
    simp only [List.cons_append, List.append_assoc, List.nil_append]
    rw [angleDepth_open, ihStart, angleDepth_plain (by decide) (by decide),
      angleDepth_plain (by decide) (by decide), ihNext, angleDepth_close]

section Commas

variable (before : List Char) (first : Option (List Char)) (rest : List Char)

theorem splitAtComma_open (depth : Nat) : splitAtComma depth before first ('<' :: rest) =
    splitAtComma (depth + 1) (before ++ ['<']) first rest := by
  cases depth <;> rfl

theorem splitAtComma_close (depth : Nat) : splitAtComma (depth + 1) before first ('>' :: rest) =
    splitAtComma depth (before ++ ['>']) first rest :=
  rfl

theorem splitAtComma_plain {c : Char} (opens : c ≠ '<') (closes : c ≠ '>') {depth : Nat}
    (comma : ¬(c = ',' ∧ depth = 0)) : splitAtComma depth before first (c :: rest) =
      splitAtComma depth (before ++ [c]) first rest := by
  cases depth <;> simp_all [splitAtComma]

end Commas

theorem splitAtComma_word {word : List Char} (chars : ∀ c ∈ word, isNameChar c = true) (depth : Nat)
    (before : List Char) (first : Option (List Char)) (rest : List Char) :
    splitAtComma depth before first (word ++ rest) = splitAtComma depth (before ++ word) first rest := by
  induction word generalizing before with
  | nil => rw [List.append_nil, List.nil_append]
  | cons c word ih =>
    have legal := chars c List.mem_cons_self
    rw [List.cons_append, splitAtComma_plain _ _ _ (nameChar_ne legal (by decide))
      (nameChar_ne legal (by decide)) fun both => nameChar_ne legal (by decide) both.1,
      ih fun d member => chars d (List.mem_cons_of_mem _ member), List.append_assoc, List.singleton_append]

/-- No comma of a written type stands outside its brackets. -/
theorem Written.splitAtComma {type : AxType} {text : List Char} (written : Written type text) (depth : Nat)
    (before : List Char) (first : Option (List Char)) (rest : List Char) :
    splitAtComma depth before first (text ++ rest) =
      Core.splitAtComma depth (before ++ text) first rest := by
  induction written generalizing depth before rest with
  | word name legal => exact splitAtComma_word (identifier_chars legal).2 depth before first rest
  | one listed inner ih =>
    rw [List.append_assoc, splitAtComma_word (wrapper_chars listed).2, List.cons_append, List.append_assoc,
      splitAtComma_open, ih, List.singleton_append, splitAtComma_close]
    simp only [List.append_assoc, List.cons_append, List.nil_append]
  | two listed start next ihStart ihNext =>
    rw [List.append_assoc, splitAtComma_word (wrapper_chars listed).2]
    simp only [List.cons_append, List.append_assoc, List.nil_append]
    rw [splitAtComma_open, ihStart, splitAtComma_plain _ _ _ (by decide) (by decide) (by omega),
      splitAtComma_plain _ _ _ (by decide) (by decide) (by omega), ihNext, splitAtComma_close]
    simp only [List.append_assoc, List.cons_append, List.nil_append]

end Texts

section Reading

theorem wrapper_dropPrefix {wrapper other : String} {first second : Generic}
    (listed : (wrapper, first) ∈ generics) (listed' : (other, second) ∈ generics) (apart : other ≠ wrapper)
    (rest : List Char) : dropPrefix other.toList (wrapper.toList ++ '<' :: rest) = none := by
  rw [dropPrefix, if_neg]
  intro found
  have front := List.isPrefixOf_iff_prefix.mp found
  have self := List.prefix_append wrapper.toList ('<' :: rest)
  rcases List.prefix_or_prefix_of_prefix front self with short | long
  · exact apart (wrappers_checked.2.1 other (List.mem_map_of_mem listed') wrapper (List.mem_map_of_mem listed) short)
  · obtain ⟨tail, whole⟩ := long
    rw [← whole, List.prefix_append_right_inj] at front
    cases tail with
    | nil =>
      rw [List.append_nil] at whole
      exact apart (String.toList_inj.mp whole.symm)
    | cons c tail =>
      obtain rfl := (List.cons_prefix_cons.mp front).1
      have legal := (wrapper_chars listed').2 '<' (by rw [← whole]; simp)
      revert legal
      decide

theorem parseWrappedType_same (wrapper : String) {inner : List Char}
    (balanced : hasBalancedAngleBrackets inner = true) :
    parseWrappedType (wrapper.toList ++ '<' :: (inner ++ ['>'])) wrapper.toList =
      .ok (some (trimmed inner)) := by
  have front : dropPrefix wrapper.toList (wrapper.toList ++ '<' :: (inner ++ ['>'])) =
      some ('<' :: (inner ++ ['>'])) := dropPrefix_eq_some.mpr rfl
  have kept : Text.trimStart ('<' :: (inner ++ ['>'])) = '<' :: (inner ++ ['>']) := by
    simp [Text.trimStart, Text.isWhitespace]
  have last : ('<' :: (inner ++ ['>'])).getLast? = some '>' := by
    rw [← List.cons_append, List.getLast?_concat]
  simp only [parseWrappedType, front, kept, last, List.head?_cons, List.tail_cons, List.dropLast_concat,
    balanced]
  rfl

/-- The generic whose name stands in front is found, whatever the table lists before it. -/
theorem findGeneric_wrapper {wrapper : String} {generic : Generic} (listed : (wrapper, generic) ∈ generics)
    {inner : List Char} (balanced : hasBalancedAngleBrackets inner = true) :
    findGeneric (wrapper.toList ++ '<' :: (inner ++ ['>'])) generics =
      .ok (some (generic, trimmed inner)) := by
  have search (table : List (String × Generic)) (part : table ⊆ generics)
      (here : (wrapper, generic) ∈ table) :
      findGeneric (wrapper.toList ++ '<' :: (inner ++ ['>'])) table =
        .ok (some (generic, trimmed inner)) := by
    induction table with
    | nil => cases here
    | cons entry table ih =>
      obtain ⟨other, choice⟩ := entry
      have known : (other, choice) ∈ generics := part List.mem_cons_self
      by_cases same : other = wrapper
      · obtain rfl := same
        have unique := List.inj_on_of_nodup_map wrappers_checked.2.2.1 known listed rfl
        rw [findGeneric, parseWrappedType_same other balanced, (Prod.mk.inj unique).2]
        rfl
      · have none : parseWrappedType (wrapper.toList ++ '<' :: (inner ++ ['>'])) other.toList = .ok none := by
          rw [parseWrappedType, wrapper_dropPrefix listed known same]
        rw [findGeneric, none]
        refine ih (fun _ member => part (List.mem_cons_of_mem _ member)) ?_
        exact (List.mem_cons.mp here).resolve_left fun entry => same (Prod.mk.inj entry).1.symm
  exact search generics (List.Subset.refl _) listed

theorem findGeneric_word {name : List Char} (chars : ∀ c ∈ name, isNameChar c = true)
    (table : List (String × Generic)) : findGeneric name table = .ok none := by
  induction table with
  | nil => rfl
  | cons entry table ih =>
    have none : parseWrappedType name entry.1.toList = .ok none := by
      rw [parseWrappedType]
      split
      · rfl
      · next rest front =>
        rw [if_pos]
        intro opened
        have member := (List.dropWhile_suffix _).subset (List.mem_of_mem_head? opened)
        have legal := chars '<' (dropPrefix_eq_some.mp front ▸ List.mem_append_right _ member)
        revert legal
        decide
    rw [findGeneric, none]
    exact ih

theorem Written.balanced {type : AxType} {text : List Char} (written : Written type text) :
    hasBalancedAngleBrackets text = true := by
  have level := written.angleDepth 0 []
  rw [List.append_nil] at level
  rw [hasBalancedAngleBrackets, level]
  rfl

theorem pair_balanced {first second : AxType} {left right : List Char} (start : Written first left)
    (rest : Written second right) : hasBalancedAngleBrackets (left ++ ',' :: ' ' :: right) = true := by
  have level := rest.angleDepth 0 []
  rw [List.append_nil] at level
  rw [hasBalancedAngleBrackets, start.angleDepth, angleDepth_plain (by decide) (by decide),
    angleDepth_plain (by decide) (by decide), level]
  rfl

theorem splitTypePair_written {first second : AxType} {left right source : List Char}
    (start : Written first left) (rest : Written second right) :
    splitTypePair (left ++ ',' :: ' ' :: right) source = .ok (left, right) := by
  have split : splitAtComma 0 [] none (left ++ ',' :: ' ' :: right) = some (some (left, ' ' :: right)) := by
    have tail := rest.splitAtComma 0 [' '] (some left) []
    rw [List.append_nil] at tail
    rw [start.splitAtComma]
    change splitAtComma 0 [] (some left) (' ' :: right) = _
    rw [splitAtComma_plain _ _ _ (by decide) (by decide) (by decide), List.nil_append, tail]
    rfl
  have front : trimmed left = left := start.firm.trim
  have back : trimmed (' ' :: right) = right := trim_blank_start rest.firm
  rw [splitTypePair, split]
  simp only [front, back, start.firm.isEmpty, rest.firm.isEmpty]
  rfl

theorem Written.last {type : AxType} {text : List Char} (written : Written type text) :
    ∃ front c, text = front ++ [c] ∧ (isNameChar c = true ∨ c = '>') := by
  cases written with
  | word name legal =>
    have chars := identifier_chars legal
    exact ⟨text.dropLast, text.getLast chars.1, (List.dropLast_append_getLast chars.1).symm,
      .inl (chars.2 _ (List.getLast_mem chars.1))⟩
  | @one wrapper _ _ text listed inner =>
    exact ⟨wrapper.toList ++ '<' :: text, '>', by simp, .inr rfl⟩
  | @two wrapper _ _ _ left right listed start rest =>
    exact ⟨wrapper.toList ++ '<' :: (left ++ ',' :: ' ' :: right), '>', by simp, .inr rfl⟩

theorem dropSuffix_last {finish front : List Char} {c d : Char} (apart : c ≠ d) :
    dropSuffix (finish ++ [d]) (front ++ [c]) = none := by
  rw [dropSuffix, if_neg]
  intro found
  obtain ⟨start, whole⟩ := List.isSuffixOf_iff_suffix.mp found
  rw [← List.append_assoc] at whole
  exact apart (List.cons.inj (List.append_inj' whole rfl).2).1.symm

theorem Written.last_ne {type : AxType} {text : List Char} (written : Written type text) {d : Char}
    (off : isNameChar d = false) (apart : '>' ≠ d) (finish : List Char) :
    dropSuffix (finish ++ [d]) text = none := by
  obtain ⟨front, c, rfl, last⟩ := written.last
  apply dropSuffix_last
  rcases last with legal | rfl
  · exact nameChar_ne legal off
  · exact apart

/-- No suffix of a written type is taken off. -/
theorem parse_plain (parse : List Char → Except AxTypeParseError AxType) {type : AxType} {text : List Char}
    (written : Written type text) : parseTypeStep parse text = (do
      match ← findGeneric text generics with
      | some (.one wrap, inner) => (parse inner).map wrap
      | some (.two wrap, inner) => do
        let (left, right) ← splitTypePair inner text
        let left ← parse left
        let right ← parse right
        return wrap left right
      | none =>
        if isTypeIdentifier text then return namedType builtins (.ofList text)
        else invalid text) := by
  have whole : trimmed text = text := written.firm.trim
  have plain : dropSuffix ['?'] text = none := written.last_ne (by decide) (by decide) []
  have closed : dropSuffix ['[', ']'] text = none := written.last_ne (by decide) (by decide) ['[']
  simp only [parseTypeStep, whole, written.firm.isEmpty, plain, closed]
  rfl

/-- A written type reads as the type. -/
theorem Written.parse {type : AxType} {text : List Char} (written : Written type text) {fuel : Nat}
    (enough : text.length < fuel) : parseTypeFrom fuel text = .ok type := by
  induction written generalizing fuel with
  | word name legal =>
    obtain ⟨fuel, rfl⟩ : ∃ n, fuel = n + 1 := ⟨fuel - 1, by omega⟩
    rw [parseTypeFrom, parse_plain _ (.word name legal), findGeneric_word (identifier_chars legal).2]
    exact if_pos legal
  | @one wrapper wrap item text listed inner ih =>
    obtain ⟨fuel, rfl⟩ : ∃ n, fuel = n + 1 := ⟨fuel - 1, by omega⟩
    rw [parseTypeFrom, parse_plain _ (.one listed inner), findGeneric_wrapper listed inner.balanced]
    have short : text.length < fuel := by
      simp only [List.length_append, List.length_cons] at enough
      omega
    have whole : trimmed text = text := inner.firm.trim
    change (parseTypeFrom fuel (trimmed text)).map wrap = _
    rw [whole, ih short]
    rfl
  | @two wrapper wrap first second left right listed start rest ihStart ihRest =>
    obtain ⟨fuel, rfl⟩ : ∃ n, fuel = n + 1 := ⟨fuel - 1, by omega⟩
    have body : wrapper.toList ++ '<' :: (left ++ ',' :: ' ' :: (right ++ ['>'])) =
        wrapper.toList ++ '<' :: ((left ++ ',' :: ' ' :: right) ++ ['>']) := by simp
    have whole : trimmed (left ++ ',' :: ' ' :: right) = left ++ ',' :: ' ' :: right :=
      (start.firm.around rest.firm [',', ' ']).trim
    have short : left.length < fuel ∧ right.length < fuel := by
      simp only [List.length_append, List.length_cons] at enough
      omega
    rw [parseTypeFrom, parse_plain _ (.two listed start rest), body,
      findGeneric_wrapper listed (pair_balanced start rest), whole]
    change (splitTypePair _ _ >>= fun parts => parseTypeFrom fuel parts.1 >>= fun a =>
      parseTypeFrom fuel parts.2 >>= fun b => pure (wrap a b)) = _
    rw [splitTypePair_written start rest]
    change (parseTypeFrom fuel left >>= fun a => parseTypeFrom fuel right >>= fun b => pure (wrap a b)) = _
    rw [ihStart short.1, ihRest short.2]
    rfl

end Reading

section Display

theorem display_named (name : String) : (namedType builtins name).displayName = name := by
  rw [namedType]
  cases found : lookup builtins name with
  | none => rfl
  | some type => exact wrappers_checked.2.2.2 (name, type) (mem_of_lookup found)

/-- A generic is displayed with its name, but for an optional of an optional. -/
theorem display_one {wrapper : String} {wrap : AxType → AxType}
    (listed : (wrapper, Generic.one wrap) ∈ generics) (item : AxType) :
    (wrap item).displayName = wrapper ++ "<" ++ item.displayName ++ ">" ∨ wrap item = item := by
  simp only [generics, List.mem_cons, Prod.mk.injEq, Generic.one.injEq, reduceCtorEq, and_false,
    List.not_mem_nil, or_false] at listed
  rcases listed with ⟨rfl, rfl⟩ | ⟨rfl, rfl⟩ | ⟨rfl, rfl⟩ | ⟨rfl, rfl⟩ | ⟨rfl, rfl⟩ | ⟨rfl, rfl⟩
  · exact .inl rfl
  · cases item <;> first | exact .inr rfl | exact .inl rfl
  · exact .inl rfl
  · exact .inl rfl
  · exact .inl rfl
  · exact .inl rfl

theorem display_two {wrapper : String} {wrap : AxType → AxType → AxType}
    (listed : (wrapper, Generic.two wrap) ∈ generics) (first second : AxType) :
    (wrap first second).displayName =
      wrapper ++ "<" ++ first.displayName ++ ", " ++ second.displayName ++ ">" := by
  simp only [generics, List.mem_cons, Prod.mk.injEq, Generic.two.injEq, reduceCtorEq, and_false,
    List.not_mem_nil, or_false, false_or] at listed
  rcases listed with ⟨rfl, rfl⟩ | ⟨rfl, rfl⟩ | ⟨rfl, rfl⟩ <;> rfl

theorem written_word {name : List Char} (legal : isTypeIdentifier name = true) :
    Written (namedType builtins (.ofList name)) (namedType builtins (.ofList name)).displayName.toList := by
  rw [display_named, String.toList_ofList]
  exact .word name legal

theorem written_one {wrapper : String} {wrap : AxType → AxType} {item : AxType}
    (listed : (wrapper, Generic.one wrap) ∈ generics) (inner : Written item item.displayName.toList) :
    Written (wrap item) (wrap item).displayName.toList := by
  rcases display_one listed item with shown | same
  · rw [shown]
    have written := Written.one listed inner
    simpa using written
  · rwa [same]

theorem written_two {wrapper : String} {wrap : AxType → AxType → AxType} {first second : AxType}
    (listed : (wrapper, Generic.two wrap) ∈ generics) (start : Written first first.displayName.toList)
    (rest : Written second second.displayName.toList) :
    Written (wrap first second) (wrap first second).displayName.toList := by
  rw [display_two listed]
  have written := Written.two listed start rest
  simpa using written

theorem findGeneric_listed {input inner : List Char} {table : List (String × Generic)} {generic : Generic}
    (found : findGeneric input table = .ok (some (generic, inner))) : ∃ wrapper, (wrapper, generic) ∈ table := by
  induction table with
  | nil => cases found
  | cons entry table ih =>
    obtain ⟨wrapper, choice⟩ := entry
    obtain ⟨result, _, next⟩ := Outcome.bind_ok.mp found
    cases result with
    | some text =>
      obtain ⟨rfl, _⟩ := Prod.mk.inj (Option.some.inj (Except.ok.inj next))
      exact ⟨wrapper, List.mem_cons_self⟩
    | none =>
      obtain ⟨other, member⟩ := ih next
      exact ⟨other, List.mem_cons_of_mem _ member⟩

/-- Every type that is read is displayed as a written type. -/
theorem parsed_written {fuel : Nat} {input : List Char} {type : AxType}
    (parsed : parseTypeFrom fuel input = .ok type) : Written type type.displayName.toList := by
  induction fuel generalizing input type with
  | zero => cases parsed
  | succ fuel ih =>
    have optional : ("Optional", Generic.one AxType.optionalOf) ∈ generics := by
      simp [generics]
    have list : ("List", Generic.one AxType.list) ∈ generics := by
      simp [generics]
    rw [parseTypeFrom] at parsed
    simp only [parseTypeStep] at parsed
    split at parsed
    · cases parsed
    · split at parsed
      · split at parsed
        · cases parsed
        · obtain ⟨item, inner, rfl⟩ := Outcome.map_ok.mp parsed
          exact written_one optional (ih inner)
      · split at parsed
        · obtain ⟨item, inner, rfl⟩ := Outcome.map_ok.mp parsed
          exact written_one list (ih inner)
        · obtain ⟨choice, found, next⟩ := Outcome.bind_ok.mp parsed
          rcases choice with _ | ⟨wrap | wrap, inner⟩
          · dsimp only at next
            split at next
            · next legal =>
              obtain rfl := Except.ok.inj next
              exact written_word legal
            · cases next
          · obtain ⟨wrapper, listed⟩ := findGeneric_listed found
            obtain ⟨item, read, rfl⟩ := Outcome.map_ok.mp next
            exact written_one listed (ih read)
          · obtain ⟨wrapper, listed⟩ := findGeneric_listed found
            obtain ⟨⟨left, right⟩, _, next⟩ := Outcome.bind_ok.mp next
            obtain ⟨first, start, next⟩ := Outcome.bind_ok.mp next
            obtain ⟨second, rest, last⟩ := Outcome.bind_ok.mp next
            obtain rfl := Except.ok.inj last
            exact written_two listed (ih start) (ih rest)

/-- The text of a type that was read from an annotation reads as the same type. -/
theorem annotation_round_trip (type : AxType) (image : ∃ input, AxType.parseAnnotation input = .ok type) :
    AxType.parseAnnotation type.displayName = .ok type := by
  obtain ⟨input, parsed⟩ := image
  exact (parsed_written parsed).parse (Nat.lt_succ_self _)

theorem annotation_round_trip_page :
    AxType.parseAnnotation (AxType.map .string (.optional (.list (.record "Note")))).displayName =
      .ok (.map .string (.optional (.list (.record "Note")))) :=
  annotation_round_trip _ ⟨"Map<String, Note[]?>", by decide +kernel⟩

end Display

end Axonyx.Core
