import Axonyx.Core.Expr
import Axonyx.Delimited
import Axonyx.Ieee

/-! The keys of the preview's loader cache. A key is the loader's name with its arguments in
brackets, each written out; strings are quoted, the names of record fields are not. -/
namespace Axonyx.Runtime.Preview

open Axonyx.Core (AxValue AxFloat)
open Delimited (Splits word_split mark_split quoted_split joined_split joined_cons toDigits_inj)
open Grammar (Stops joined)

variable {F : Type} [Float64 F]

section Keys

/-- How `{:?}` writes: the characters that a string shows as they are, and the floats. -/
structure RustDebug (F : Type) where
  plain : Char → Bool
  float : F → String

/-- The shortest decimal that reads back as the float. -/
structure RustDebug.Lawful (debug : RustDebug F) : Prop where
  apart : ∀ a b : AxFloat F, debug.float a.get = debug.float b.get → a = b
  chars : ∀ a : AxFloat F, ∀ c ∈ (debug.float a.get).toList, c.isDigit = true ∨ c ∈ ['.', 'e', '-']

/-- The characters that stand behind a backslash, and how. -/
def debugEscapes : List (Char × Char) :=
  [(Char.ofNat 0, '0'), ('\t', 't'), ('\r', 'r'), ('\n', 'n'), ('"', '"'), ('\\', '\\')]

/-- `char::escape_debug_ext` inside a string. -/
def escapeDebug (plain : Char → Bool) (c : Char) : List Char :=
  match debugEscapes.lookup c with
  | some mark => ['\\', mark]
  | none => if plain c then [c] else '\\' :: 'u' :: '{' :: Nat.toDigits 16 c.toNat ++ ['}']

def debugString (plain : Char → Bool) (text : String) : List Char :=
  '"' :: text.toList.flatMap (escapeDebug plain) ++ ['"']

variable (debug : RustDebug F)

mutual

/-- `preview_value_cache_key`. -/
def valueKey : AxValue F → List Char
  | .null => "null".toList
  | .string value => 's' :: ':' :: debugString debug.plain value
  | .number value => 'n' :: ':' :: (toString value).toList
  | .float value => 'f' :: ':' :: (debug.float value.get).toList
  | .bool value => 'b' :: ':' :: (toString value).toList
  | .record fields => 'r' :: ':' :: '{' :: (joined ',' (fieldKeys fields) ++ ['}'])
  | .list items => 'l' :: ':' :: '[' :: (joined ',' (itemKeys items) ++ [']'])

def itemKeys : List (AxValue F) → List (List Char)
  | [] => []
  | item :: rest => valueKey item :: itemKeys rest

def fieldKeys : List (String × AxValue F) → List (List Char)
  | [] => []
  | (name, value) :: rest => (name.toList ++ ':' :: valueKey value) :: fieldKeys rest

end

structure LoaderCall (F : Type) [Float64 F] where
  loaderName : String
  args : List (AxValue F)

def previewLoaderCacheKey (call : LoaderCall F) : String :=
  if call.args.isEmpty then call.loaderName
  else .ofList (call.loaderName.toList ++ '(' :: (joined ',' (itemKeys debug call.args) ++ [')']))

def fieldKey (field : String × AxValue F) : List Char :=
  field.1.toList ++ ':' :: valueKey debug field.2

theorem itemKeys_map (items : List (AxValue F)) : itemKeys debug items = items.map (valueKey debug) := by
  induction items with
  | nil => rfl
  | cons item rest ih => rw [itemKeys, ih, List.map_cons]

theorem fieldKeys_map (fields : List (String × AxValue F)) :
    fieldKeys debug fields = fields.map (fieldKey debug) := by
  induction fields with
  | nil => rfl
  | cons field rest ih => rw [fieldKeys, ih, List.map_cons, fieldKey]

end Keys

section Openers

mutual

/-- What a key shows where a field could begin: the field's name with its colon, or the
closing brace of a record without fields. -/
def openers : AxValue F → List (List Char)
  | .record fields => (if fields.isEmpty then [['}']] else []) ++ fieldOpeners fields
  | .list items => itemOpeners items
  | _ => []

def itemOpeners : List (AxValue F) → List (List Char)
  | [] => []
  | item :: rest => openers item ++ itemOpeners rest

def fieldOpeners : List (String × AxValue F) → List (List Char)
  | [] => []
  | (name, value) :: rest => (name.toList ++ [':']) :: openers value ++ fieldOpeners rest

end

/-- No text of the one kind begins with a different one of the other kind. -/
def Distinguishable (first second : List (List Char)) : Prop :=
  ∀ p ∈ first, ∀ q ∈ second, p <+: q ∨ q <+: p → p = q

theorem Distinguishable.mono {first second first' second' : List (List Char)}
    (apart : Distinguishable first second) (left : first' ⊆ first) (right : second' ⊆ second) :
    Distinguishable first' second' :=
  fun p hp q hq => apart p (left hp) q (right hq)

theorem openers_item {item : AxValue F} {items : List (AxValue F)} (member : item ∈ items) :
    openers item ⊆ itemOpeners items := by
  induction items with
  | nil => cases member
  | cons first rest ih =>
    rw [itemOpeners]
    rcases List.mem_cons.mp member with rfl | later
    · exact List.subset_append_left _ _
    · exact List.subset_append_of_subset_right _ (ih later)

theorem openers_field {field : String × AxValue F} {fields : List (String × AxValue F)}
    (member : field ∈ fields) : (field.1.toList ++ [':']) :: openers field.2 ⊆ fieldOpeners fields := by
  induction fields with
  | nil => cases member
  | cons first rest ih =>
    obtain ⟨name, value⟩ := first
    rw [fieldOpeners]
    rcases List.mem_cons.mp member with rfl | later
    · exact List.subset_append_left _ _
    · exact List.subset_append_of_subset_right _ (ih later)

end Openers

section Injective

variable {debug : RustDebug F}

/-- A key goes on, neither to the next argument, item or field nor to a closing bracket. -/
def continues (c : Char) : Bool := c ≠ ',' && c ≠ '}' && c ≠ ']' && c ≠ ')'

theorem continues_digit {c : Char} (digit : c.isDigit = true ∨ c ∈ ['.', 'e', '-']) :
    continues c = true := by
  simp only [continues, Bool.and_eq_true, decide_eq_true_eq]
  refine ⟨⟨⟨?_, ?_⟩, ?_⟩, ?_⟩ <;> rintro rfl <;> revert digit <;> decide

theorem brace_toDigits (n : Nat) : '}' ∉ Nat.toDigits 16 n := by
  intro member
  obtain ⟨d, small, same⟩ := Delimited.mem_toDigits (by decide) n _ member
  have table : ∀ d < 16, Nat.digitChar d ≠ '}' := by decide
  exact table d small same.symm

/-- The escapes as they begin: a mark behind a backslash, a character as it is, or a number. -/
theorem escapeDebug_cases (plain : Char → Bool) (c : Char) :
    (∃ mark, (c, mark) ∈ debugEscapes ∧ escapeDebug plain c = ['\\', mark]) ∨
      (c ∉ debugEscapes.map Prod.fst ∧ escapeDebug plain c = [c]) ∨
      escapeDebug plain c = '\\' :: 'u' :: '{' :: (Nat.toDigits 16 c.toNat ++ ['}']) := by
  unfold escapeDebug
  split
  · next mark found =>
    obtain ⟨before, behind, shape, _⟩ := List.lookup_eq_some_iff.mp found
    exact .inl ⟨mark, by simp [shape], rfl⟩
  · next absent =>
    split
    · refine .inr (.inl ⟨fun member => ?_, rfl⟩)
      obtain ⟨escape, listed, same⟩ := List.mem_map.mp member
      have differs := List.lookup_eq_none_iff.mp absent escape listed
      simp [same] at differs
    · exact .inr (.inr rfl)

theorem escapeDebug_head (plain : Char → Bool) (c : Char) :
    ∃ d rest, escapeDebug plain c = d :: rest ∧ d ≠ '"' := by
  rcases escapeDebug_cases plain c with ⟨mark, _, shape⟩ | ⟨other, shape⟩ | shape
  · exact ⟨_, _, shape, by decide⟩
  · refine ⟨_, _, shape, ?_⟩
    rintro rfl
    exact other (by decide)
  · exact ⟨_, _, shape, by decide⟩

theorem debugEscapes_apart : ∀ first ∈ debugEscapes, first.2 ≠ 'u' ∧
    ∀ second ∈ debugEscapes, first.2 = second.2 → first.1 = second.1 := by
  decide

theorem escapeDebug_split (plain : Char → Bool) (c d : Char) (x y : List Char)
    (same : escapeDebug plain c ++ x = escapeDebug plain d ++ y) : c = d ∧ x = y := by
  rcases escapeDebug_cases plain c with ⟨m, first, left⟩ | ⟨other, left⟩ | left <;>
    rcases escapeDebug_cases plain d with ⟨n, second, right⟩ | ⟨other', right⟩ | right <;>
    rw [left, right] at same
  · simp only [List.cons_append, List.nil_append, List.cons.injEq, true_and] at same
    exact ⟨(debugEscapes_apart _ first).2 _ second same.1, same.2⟩
  · obtain rfl := (List.cons.inj same).1
    exact absurd (by decide) other'
  · exact absurd (List.cons.inj (List.cons.inj same).2).1 (debugEscapes_apart _ first).1
  · obtain rfl := (List.cons.inj same).1
    exact absurd (by decide) other
  · exact List.cons.inj same
  · obtain rfl := (List.cons.inj same).1
    exact absurd (by decide) other
  · exact absurd (List.cons.inj (List.cons.inj same).2).1.symm (debugEscapes_apart _ second).1
  · obtain rfl := (List.cons.inj same).1
    exact absurd (by decide) other'
  · simp only [List.cons_append, List.cons.injEq, true_and, List.append_assoc, List.nil_append] at same
    obtain ⟨digits, rest⟩ := mark_split (brace_toDigits _) (brace_toDigits _) same
    have code := toDigits_inj (by decide) (by decide) digits
    exact ⟨Char.ext (UInt32.toNat_inj.mp code), rest⟩

/-- A quoted string ends where its quotes end. -/
theorem debugString_split (plain : Char → Bool) {s t : String} {x y : List Char}
    (same : debugString plain s ++ x = debugString plain t ++ y) : s = t ∧ x = y := by
  simp only [debugString, List.cons_append, List.append_assoc, List.nil_append, List.cons.injEq,
    true_and] at same
  obtain ⟨chars, rest⟩ := quoted_split (escapeDebug_split plain) (escapeDebug_head plain) same
  exact ⟨String.toList_inj.mp chars, rest⟩

theorem number_split {m n : Int64} {x y : List Char} (before : Stops continues x)
    (behind : Stops continues y) (same : (toString m).toList ++ x = (toString n).toList ++ y) :
    m = n ∧ x = y := by
  have chars (n : Int64) : ∀ c ∈ (toString n).toList, continues c = true := by
    intro c member
    apply continues_digit
    exact (Text.toString_chars n c member).imp_right fun sign => by simp [sign]
  obtain ⟨texts, rest⟩ := word_split (chars m) (chars n) before behind same
  have number := congrArg Text.parseI64 texts
  rw [Text.parseI64_toString, Text.parseI64_toString] at number
  exact ⟨Option.some.inj number, rest⟩

theorem field_splits {a b : String × AxValue F}
    (apart : Distinguishable ((a.1.toList ++ [':']) :: openers a.2) ((b.1.toList ++ [':']) :: openers b.2))
    (value : Splits continues (valueKey debug) a.2 b.2) : Splits continues (fieldKey debug) a b := by
  intro x y before behind same
  obtain ⟨k, v⟩ := a
  obtain ⟨l, w⟩ := b
  have pieces : (k.toList ++ [':']) ++ (valueKey debug v ++ x) =
      (l.toList ++ [':']) ++ (valueKey debug w ++ y) := by
    simpa [fieldKey] using same
  have ordered := List.prefix_or_prefix_of_prefix (List.prefix_append _ _)
    (pieces ▸ List.prefix_append (l.toList ++ [':']) (valueKey debug w ++ y))
  have names := apart _ List.mem_cons_self _ List.mem_cons_self ordered
  rw [names] at pieces
  obtain ⟨rfl, rest⟩ := value x y before behind (List.append_cancel_left pieces)
  obtain rfl : k = l := String.toList_inj.mp (List.append_cancel_right names)
  exact ⟨rfl, rest⟩

/-- A record's name or brace shows whether a field stands there. -/
theorem field_head {field : String × AxValue F}
    (apart : (field.1.toList ++ [':']) ≠ ['}'] → ¬['}'] <+: field.1.toList ++ [':']) :
    ∃ c rest, fieldKey debug field = c :: rest ∧ c ≠ '}' := by
  obtain ⟨name, value⟩ := field
  unfold fieldKey
  cases chars : name.toList with
  | nil => exact ⟨':', _, rfl, by decide⟩
  | cons c rest =>
    refine ⟨c, _, rfl, ?_⟩
    rintro rfl
    rw [chars] at apart
    exact apart (by simp) ⟨rest ++ [':'], rfl⟩

theorem record_splits {as bs : List (String × AxValue F)}
    (apart : Distinguishable (openers (.record as)) (openers (.record bs)))
    (each : ∀ a ∈ as, ∀ b, Distinguishable (openers a.2) (openers b) →
      Splits continues (valueKey debug) a.2 b) {x y : List Char}
    (same : joined ',' (fieldKeys debug as) ++ '}' :: x = joined ',' (fieldKeys debug bs) ++ '}' :: y) :
    as = bs ∧ x = y := by
  rw [openers, openers] at apart
  rw [fieldKeys_map, fieldKeys_map] at same
  have divides : continues ',' = false := rfl
  have ends : continues '}' = false := rfl
  refine joined_split divides ends (by decide) ?_ ?_ ?_ same
  · intro a left b right
    have names := apart.mono (List.subset_append_of_subset_right _ (openers_field left))
      (List.subset_append_of_subset_right _ (openers_field right))
    exact field_splits names (each a left b.2 (names.mono (List.subset_cons_self _ _)
      (List.subset_cons_self _ _)))
  · rintro rfl a left
    refine field_head fun other begins => other ?_
    exact apart _ (List.mem_append_right _ (openers_field left List.mem_cons_self)) _
      (List.mem_append_left _ (List.mem_singleton_self _)) (.inr begins)
  · rintro rfl b right
    refine field_head fun other begins => other ?_
    exact (apart _ (List.mem_append_left _ (List.mem_singleton_self _)) _
      (List.mem_append_right _ (openers_field right List.mem_cons_self)) (.inl begins)).symm

theorem valueKey_head (value : AxValue F) : ∃ c rest, valueKey debug value = c :: rest ∧ c ≠ ']' ∧ c ≠ ')' := by
  cases value <;> exact ⟨_, _, rfl, by decide, by decide⟩

theorem list_splits {close : Char} (closing : close = ']' ∨ close = ')') {as bs : List (AxValue F)}
    (apart : Distinguishable (itemOpeners as) (itemOpeners bs))
    (each : ∀ a ∈ as, ∀ b, Distinguishable (openers a) (openers b) →
      Splits continues (valueKey debug) a b) {x y : List Char}
    (same : joined ',' (itemKeys debug as) ++ close :: x = joined ',' (itemKeys debug bs) ++ close :: y) :
    as = bs ∧ x = y := by
  have head (value : AxValue F) : ∃ c rest, valueKey debug value = c :: rest ∧ c ≠ close := by
    obtain ⟨c, rest, shape, square, round⟩ := @valueKey_head F _ debug value
    rcases closing with rfl | rfl
    · exact ⟨c, rest, shape, square⟩
    · exact ⟨c, rest, shape, round⟩
  have ends : continues close = false ∧ ',' ≠ close := by
    rcases closing with rfl | rfl <;> decide
  rw [itemKeys_map, itemKeys_map] at same
  have divides : continues ',' = false := rfl
  refine joined_split divides ends.1 ends.2 ?_ ?_ ?_ same
  · intro a left b right
    exact each a left b (apart.mono (openers_item left) (openers_item right))
  · exact fun _ a _ => head a
  · exact fun _ b _ => head b

mutual

/-- Two values whose field names cannot be mistaken are told apart, whatever stands behind. -/
theorem value_splits (laws : debug.Lawful) : ∀ a b : AxValue F, Distinguishable (openers a) (openers b) →
    Splits continues (valueKey debug) a b
  | .null, b, _, x, y, _, _, same => by
    cases b with
    | null => exact ⟨rfl, List.append_cancel_left same⟩
    | number n => exact absurd (List.cons.inj (List.cons.inj same).2).1 (by decide)
    | _ => exact absurd (List.cons.inj same).1 (by decide)
  | .string s, b, _, x, y, _, _, same => by
    cases b with
    | string t =>
      obtain ⟨rfl, rest⟩ := debugString_split _ (List.cons.inj (List.cons.inj same).2).2
      exact ⟨rfl, rest⟩
    | _ => exact absurd (List.cons.inj same).1 (by decide)
  | .number m, b, _, x, y, before, behind, same => by
    cases b with
    | number n =>
      obtain ⟨rfl, rest⟩ := number_split before behind (List.cons.inj (List.cons.inj same).2).2
      exact ⟨rfl, rest⟩
    | null => exact absurd (List.cons.inj (List.cons.inj same).2).1 (by decide)
    | _ => exact absurd (List.cons.inj same).1 (by decide)
  | .float a, b, _, x, y, before, behind, same => by
    cases b with
    | float b =>
      have chars (a : AxFloat F) : ∀ c ∈ (debug.float a.get).toList, continues c = true :=
        fun c member => continues_digit (laws.chars a c member)
      obtain ⟨texts, rest⟩ := word_split (chars a) (chars b) before behind
        (List.cons.inj (List.cons.inj same).2).2
      obtain rfl := laws.apart a b (String.toList_inj.mp texts)
      exact ⟨rfl, rest⟩
    | _ => exact absurd (List.cons.inj same).1 (by decide)
  | .bool a, b, _, x, y, _, _, same => by
    cases b with
    | bool b =>
      have texts := (List.cons.inj (List.cons.inj same).2).2
      cases a <;> cases b
      · exact ⟨rfl, List.append_cancel_left texts⟩
      · exact absurd (List.cons.inj texts).1 (by decide)
      · exact absurd (List.cons.inj texts).1 (by decide)
      · exact ⟨rfl, List.append_cancel_left texts⟩
    | _ => exact absurd (List.cons.inj same).1 (by decide)
  | .record as, b, apart, x, y, _, _, same => by
    cases b with
    | record bs =>
      have body : joined ',' (fieldKeys debug as) ++ '}' :: x =
          joined ',' (fieldKeys debug bs) ++ '}' :: y := by simpa [valueKey] using same
      obtain ⟨rfl, rest⟩ := record_splits apart (fields_split laws as) body
      exact ⟨rfl, rest⟩
    | _ => exact absurd (List.cons.inj same).1 (by decide)
  | .list as, b, apart, x, y, _, _, same => by
    cases b with
    | list bs =>
      have body : joined ',' (itemKeys debug as) ++ ']' :: x =
          joined ',' (itemKeys debug bs) ++ ']' :: y := by simpa [valueKey] using same
      obtain ⟨rfl, rest⟩ := list_splits (.inl rfl) apart (items_split laws as) body
      exact ⟨rfl, rest⟩
    | _ => exact absurd (List.cons.inj same).1 (by decide)

theorem items_split (laws : debug.Lawful) : ∀ items : List (AxValue F), ∀ a ∈ items, ∀ b,
    Distinguishable (openers a) (openers b) → Splits continues (valueKey debug) a b
  | [], _, member, _, _ => nomatch member
  | item :: rest, a, member, b, apart => by
    rcases List.mem_cons.mp member with here | later
    · rw [here] at apart ⊢
      exact value_splits laws item b apart
    · exact items_split laws rest a later b apart

theorem fields_split (laws : debug.Lawful) : ∀ fields : List (String × AxValue F), ∀ a ∈ fields, ∀ b,
    Distinguishable (openers a.2) (openers b) → Splits continues (valueKey debug) a.2 b
  | [], _, member, _, _ => nomatch member
  | (name, value) :: rest, a, member, b, apart => by
    rcases List.mem_cons.mp member with here | later
    · rw [here] at apart ⊢
      exact value_splits laws value b apart
    · exact fields_split laws rest a later b apart

end

def LoaderCall.openers (call : LoaderCall F) : List (List Char) := itemOpeners call.args

theorem key_chars (call : LoaderCall F) : (previewLoaderCacheKey debug call).toList =
    call.loaderName.toList ++
      if call.args.isEmpty then [] else '(' :: (joined ',' (itemKeys debug call.args) ++ [')']) := by
  unfold previewLoaderCacheKey
  split
  · exact (List.append_nil _).symm
  · rw [String.toList_ofList]

/-- Calls with one key are one call, if their loader names have no bracket and their field
names cannot be mistaken. -/
theorem same_call_of_key (laws : debug.Lawful) {first second : LoaderCall F}
    (plain : '(' ∉ first.loaderName.toList) (plain' : '(' ∉ second.loaderName.toList)
    (apart : Distinguishable first.openers second.openers)
    (same : previewLoaderCacheKey debug first = previewLoaderCacheKey debug second) :
    first = second := by
  obtain ⟨name, args⟩ := first
  obtain ⟨name', args'⟩ := second
  have texts := congrArg String.toList same
  rw [key_chars, key_chars] at texts
  cases args with
  | nil =>
    cases args' with
    | nil =>
      obtain rfl : name = name' := String.toList_inj.mp (List.append_cancel_right texts)
      rfl
    | cons =>
      refine absurd ?_ plain
      simp only [List.isEmpty_nil, if_true, List.append_nil] at texts
      simp [texts]
  | cons a as =>
    cases args' with
    | nil =>
      refine absurd ?_ plain'
      simp only [List.isEmpty_nil, if_true, List.append_nil] at texts
      simp [← texts]
    | cons b bs =>
      obtain ⟨names, body⟩ := mark_split plain plain' texts
      have args : a :: as = b :: bs := (list_splits (.inr rfl) apart (items_split laws _) body).1
      obtain rfl : name = name' := String.toList_inj.mp names
      rw [args]

end Injective

section Collisions

variable (debug : RustDebug F)

/-- All fields as one: the name takes in everything up to the last colon. -/
def collapseOnto : String × AxValue F → List (String × AxValue F) → String × AxValue F
  | field, [] => field
  | field, (name, value) :: rest =>
    collapseOnto (.ofList (fieldKey debug field ++ ',' :: name.toList), value) rest

def collapse : List (String × AxValue F) → List (String × AxValue F)
  | [] => []
  | field :: rest => [collapseOnto debug field rest]

mutual

/-- The value with one field at most in each of its records. -/
def collapsed : AxValue F → AxValue F
  | .record fields => .record (collapse debug (collapsedFields fields))
  | .list items => .list (collapsedItems items)
  | value => value

def collapsedItems : List (AxValue F) → List (AxValue F)
  | [] => []
  | item :: rest => collapsed item :: collapsedItems rest

def collapsedFields : List (String × AxValue F) → List (String × AxValue F)
  | [] => []
  | (name, value) :: rest => (name, collapsed value) :: collapsedFields rest

end

mutual

/-- Some record of the value, at any depth, has two fields. -/
def wide : AxValue F → Bool
  | .record fields => 2 ≤ fields.length || wideFields fields
  | .list items => wideItems items
  | _ => false

def wideItems : List (AxValue F) → Bool
  | [] => false
  | item :: rest => wide item || wideItems rest

def wideFields : List (String × AxValue F) → Bool
  | [] => false
  | (_, value) :: rest => wide value || wideFields rest

end

theorem fieldKey_collapseOnto (field : String × AxValue F) (rest : List (String × AxValue F)) :
    fieldKey debug (collapseOnto debug field rest) = joined ',' (fieldKeys debug (field :: rest)) := by
  induction rest generalizing field with
  | nil => rfl
  | cons next rest ih =>
    rw [collapseOnto, ih, fieldKeys_map, fieldKeys_map, List.map_cons, List.map_cons, List.map_cons,
      joined_cons, joined_cons]
    simp [fieldKey, Delimited.behind, joined_cons]

theorem joined_collapse (fields : List (String × AxValue F)) :
    joined ',' (fieldKeys debug (collapse debug fields)) = joined ',' (fieldKeys debug fields) := by
  cases fields with
  | nil => rfl
  | cons field rest => exact fieldKey_collapseOnto debug field rest

mutual

theorem valueKey_collapsed : ∀ value : AxValue F, valueKey debug (collapsed debug value) = valueKey debug value
  | .null | .string _ | .number _ | .float _ | .bool _ => rfl
  | .record fields => by
    rw [collapsed, valueKey, valueKey, joined_collapse, fieldKeys_collapsed fields]
  | .list items => by
    rw [collapsed, valueKey, valueKey, itemKeys_collapsed items]

theorem itemKeys_collapsed : ∀ items : List (AxValue F),
    itemKeys debug (collapsedItems debug items) = itemKeys debug items
  | [] => rfl
  | item :: rest => by
    rw [collapsedItems, itemKeys, itemKeys, valueKey_collapsed item, itemKeys_collapsed rest]

theorem fieldKeys_collapsed : ∀ fields : List (String × AxValue F),
    fieldKeys debug (collapsedFields debug fields) = fieldKeys debug fields
  | [] => rfl
  | (name, value) :: rest => by
    rw [collapsedFields, fieldKeys, fieldKeys, valueKey_collapsed value, fieldKeys_collapsed rest]

end

theorem length_collapsedFields (fields : List (String × AxValue F)) :
    (collapsedFields debug fields).length = fields.length := by
  induction fields with
  | nil => rfl
  | cons field rest ih => rw [collapsedFields, List.length_cons, List.length_cons, ih]

theorem collapse_short {fields : List (String × AxValue F)} (short : fields.length ≤ 1) :
    collapse debug fields = fields := by
  cases fields with
  | nil => rfl
  | cons field rest =>
    obtain rfl : rest = [] := List.length_eq_zero_iff.mp (by simpa using short)
    rfl

theorem length_collapse (fields : List (String × AxValue F)) : (collapse debug fields).length ≤ 1 := by
  cases fields with
  | nil => exact Nat.zero_le 1
  | cons => exact Nat.le_refl 1

mutual

theorem collapsed_ne : ∀ value : AxValue F, wide value = true → collapsed debug value ≠ value
  | .null | .string _ | .number _ | .float _ | .bool _ => nofun
  | .list items => by
    intro found same
    rw [collapsed, AxValue.list.injEq] at same
    exact collapsedItems_ne items found same
  | .record fields => by
    intro found same
    rw [collapsed, AxValue.record.injEq] at same
    rw [wide, Bool.or_eq_true, decide_eq_true_eq] at found
    have short := length_collapse debug (collapsedFields debug fields)
    rw [same] at short
    have deeper := found.resolve_left (by omega)
    rw [collapse_short debug (length_collapsedFields debug fields ▸ short)] at same
    exact collapsedFields_ne fields deeper same

theorem collapsedItems_ne : ∀ items : List (AxValue F), wideItems items = true →
    collapsedItems debug items ≠ items
  | [] => nofun
  | item :: rest => by
    intro found same
    rw [collapsedItems, List.cons.injEq] at same
    rcases (Bool.or_eq_true _ _).mp found with here | later
    · exact collapsed_ne item here same.1
    · exact collapsedItems_ne rest later same.2

theorem collapsedFields_ne : ∀ fields : List (String × AxValue F), wideFields fields = true →
    collapsedFields debug fields ≠ fields
  | [] => nofun
  | (name, value) :: rest => by
    intro found same
    rw [collapsedFields, List.cons.injEq, Prod.mk.injEq] at same
    rcases (Bool.or_eq_true _ _).mp found with here | later
    · exact collapsed_ne value here same.1.2
    · exact collapsedFields_ne rest later same.2

end

/-- A call with a record of two fields shares its key with a call that has none. -/
theorem key_collapsed (call : LoaderCall F) (found : wideItems call.args = true) :
    (⟨call.loaderName, collapsedItems debug call.args⟩ : LoaderCall F) ≠ call ∧
      previewLoaderCacheKey debug ⟨call.loaderName, collapsedItems debug call.args⟩ =
        previewLoaderCacheKey debug call := by
  obtain ⟨name, args⟩ := call
  constructor
  · intro same
    exact collapsedItems_ne debug args found (LoaderCall.mk.inj same).2
  · apply String.toList_inj.mp
    rw [key_chars, key_chars]
    cases args with
    | nil => cases found
    | cons arg rest =>
      simp only [itemKeys_collapsed]
      rfl

/-- A writer that shows ASCII characters as they are and the float zero as `0.0`. -/
def asciiDebug : RustDebug F64 where
  plain c := 32 ≤ c.toNat && c.toNat < 127
  float f := toString f.toNat ++ ".0"

theorem asciiDebug_float (f : F64) :
    (asciiDebug.float f).toList = Nat.toDigits 10 f.toNat ++ ['.', '0'] := by
  rw [asciiDebug, String.toList_append]
  exact congrArg (· ++ _) Nat.toList_repr

theorem asciiDebug_lawful : asciiDebug.Lawful where
  apart a b same := by
    have texts := congrArg String.toList same
    rw [asciiDebug_float, asciiDebug_float] at texts
    have bits := toDigits_inj (by decide) (by decide) (List.append_cancel_right texts)
    obtain ⟨f, finite, plain⟩ := a
    obtain ⟨g, finite', plain'⟩ := b
    obtain rfl : f = g := BitVec.eq_of_toNat_eq bits
    rfl
  chars a c member := by
    rw [asciiDebug_float] at member
    rcases List.mem_append.mp member with digit | last
    · exact .inl (Text.digit_toDigits _ c digit)
    · rcases List.mem_cons.mp last with rfl | zero
      · exact .inr (by decide)
      · obtain rfl := List.mem_singleton.mp zero
        exact .inl (by decide)

def zeroFloat : AxFloat F64 := ⟨0#64, by decide, by decide +kernel⟩

end Collisions

end Axonyx.Runtime.Preview
