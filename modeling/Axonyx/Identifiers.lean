import Mathlib.Data.List.Basic

/-! Names made of segments: joined by underscores, or run together with capital letters. Two
lists of segments give one snake-case name only where they are equal, and one camel-case name
where they agree once the underscores that stand before no letter are dropped. -/
namespace Identifiers

section Letters

theorem isAlpha_eq (c : Char) : c.isAlpha = (c.isUpper || c.isLower) := rfl

theorem isUpper_eq (c : Char) : c.isUpper = decide (c.val ≥ 'A'.val ∧ c.val ≤ 'Z'.val) := rfl

theorem isLower_eq (c : Char) : c.isLower = (decide (c.val ≥ 'a'.val) && decide (c.val ≤ 'z'.val)) := rfl

theorem toUpper_plain {c : Char} (other : ¬('a'.val ≤ c.val ∧ c.val ≤ 'z'.val)) : c.toUpper = c :=
  dif_neg other

theorem toLower_plain {c : Char} (other : ¬(c.val ≥ 'A'.val ∧ c.val ≤ 'Z'.val)) : c.toLower = c :=
  dif_neg other

theorem ascii_letter {c : Char} (letter : c.isAlpha = true) : c.toNat < 128 := by
  simp only [isAlpha_eq, isUpper_eq, isLower_eq, Bool.or_eq_true, Bool.and_eq_true,
    decide_eq_true_eq, UInt32.le_iff_toNat_le, ge_iff_le] at letter
  have upperBound : 'Z'.val.toNat = 90 := rfl
  have lowerBound : 'z'.val.toNat = 122 := rfl
  have value : c.toNat = c.val.toNat := rfl
  omega

theorem ascii_cases {c : Char} (small : c.toNat < 128) :
    (c.isLower = true → c.toUpper.isUpper = true ∧ c.toUpper.toLower = c) ∧
      (c.isUpper = true → c.toLower.isLower = true) ∧ (c.isLower = true → c.isUpper = false) := by
  have table : ∀ n < 128, ((Char.ofNat n).isLower = true →
      (Char.ofNat n).toUpper.isUpper = true ∧ (Char.ofNat n).toUpper.toLower = Char.ofNat n) ∧
      ((Char.ofNat n).isUpper = true → (Char.ofNat n).toLower.isLower = true) ∧
      ((Char.ofNat n).isLower = true → (Char.ofNat n).isUpper = false) := by decide +kernel
  simpa using table c.toNat small

theorem isAlpha_of_isLower {c : Char} (lower : c.isLower = true) : c.isAlpha = true := by
  rw [isAlpha_eq, lower, Bool.or_true]

theorem isAlpha_of_isUpper {c : Char} (upper : c.isUpper = true) : c.isAlpha = true := by
  rw [isAlpha_eq, upper, Bool.true_or]

theorem toUpper_of_isLower {c : Char} (lower : c.isLower = true) :
    c.toUpper.isUpper = true ∧ c.toUpper.toLower = c :=
  (ascii_cases (ascii_letter (isAlpha_of_isLower lower))).1 lower

theorem toLower_of_isUpper {c : Char} (upper : c.isUpper = true) : c.toLower.isLower = true :=
  (ascii_cases (ascii_letter (isAlpha_of_isUpper upper))).2.1 upper

theorem not_isUpper_of_isLower {c : Char} (lower : c.isLower = true) : c.isUpper = false :=
  (ascii_cases (ascii_letter (isAlpha_of_isLower lower))).2.2 lower

theorem toUpper_of_not_isLower {c : Char} (other : c.isLower = false) : c.toUpper = c := by
  simp only [isLower_eq, ge_iff_le, Bool.and_eq_false_iff, decide_eq_false_iff_not] at other
  refine toUpper_plain fun bounds => ?_
  rcases other with low | high
  · exact low bounds.1
  · exact high bounds.2

theorem toLower_of_not_isUpper {c : Char} (other : c.isUpper = false) : c.toLower = c := by
  refine toLower_plain ?_
  simpa [isUpper_eq] using other

end Letters

section Snake

def snake (segments : List (List Char)) : List Char := ['_'].intercalate segments

theorem snake_cons (segment : List Char) {rest : List (List Char)} (more : rest ≠ []) :
    snake (segment :: rest) = segment ++ '_' :: snake rest := by
  rw [snake, List.intercalate_cons_of_ne_nil more, List.append_assoc]
  rfl

theorem mem_snake {segments : List (List Char)} {c : Char} (member : c ∈ snake segments) :
    c = '_' ∨ ∃ segment ∈ segments, c ∈ segment := by
  induction segments with
  | nil => cases member
  | cons segment rest ih =>
    by_cases last : rest = []
    · subst last
      exact .inr ⟨segment, List.mem_cons_self, by simpa [snake] using member⟩
    · rw [snake_cons segment last] at member
      rcases List.mem_append.mp member with here | later
      · exact .inr ⟨segment, List.mem_cons_self, here⟩
      · rcases List.mem_cons.mp later with mark | inside
        · exact .inl mark
        · rcases ih inside with mark | ⟨other, found, within⟩
          · exact .inl mark
          · exact .inr ⟨other, List.mem_cons_of_mem _ found, within⟩

/-- Joined segments can be told apart. -/
theorem snake_injective {first second : List (List Char)} (whole : first ≠ []) (whole' : second ≠ [])
    (plain : ∀ segment ∈ first, '_' ∉ segment) (plain' : ∀ segment ∈ second, '_' ∉ segment)
    (same : snake first = snake second) : first = second := by
  rw [← List.splitOn_intercalate '_' plain whole, ← List.splitOn_intercalate '_' plain' whole']
  exact congrArg _ same

theorem snake_append {first second : List (List Char)} (more : first ≠ []) (more' : second ≠ []) :
    snake (first ++ second) = snake first ++ '_' :: snake second := by
  induction first with
  | nil => exact absurd rfl more
  | cons segment rest ih =>
    rw [List.cons_append, snake_cons _ (by simp [more'])]
    by_cases last : rest = []
    · subst last
      simp [snake]
    · rw [ih last, snake_cons _ last, List.append_assoc]
      rfl

/-- What a text is cut into has the characters of the text without the separator. -/
theorem mem_splitOn {text piece : List Char} (member : piece ∈ text.splitOn '_') {c : Char}
    (inside : c ∈ piece) : c ∈ text ∧ c ≠ '_' := by
  induction text generalizing piece with
  | nil =>
    obtain rfl : piece = [] := by simpa using member
    cases inside
  | cons first rest ih =>
    rw [List.splitOn_cons_eq_if_modifyHead] at member
    split at member
    next mark =>
      rcases List.mem_cons.mp member with rfl | later
      · cases inside
      · obtain ⟨here, other⟩ := ih later inside
        exact ⟨List.mem_cons_of_mem _ here, other⟩
    next letter =>
      cases pieces : rest.splitOn '_' with
      | nil => exact absurd pieces (List.splitOn_ne_nil _ _)
      | cons head tail =>
        rw [pieces, List.modifyHead_cons] at member
        rw [pieces] at ih
        rcases List.mem_cons.mp member with rfl | later
        · rcases List.mem_cons.mp inside with rfl | within
          · exact ⟨List.mem_cons_self, by simpa using letter⟩
          · obtain ⟨here, other⟩ := ih List.mem_cons_self within
            exact ⟨List.mem_cons_of_mem _ here, other⟩
        · obtain ⟨here, other⟩ := ih (List.mem_cons_of_mem _ later) inside
          exact ⟨List.mem_cons_of_mem _ here, other⟩

end Snake

section Camel

/-- No capital letter and no underscore. -/
def Lowered (segment : List Char) : Prop := ∀ c ∈ segment, c.isUpper = false ∧ c ≠ '_'

instance (segment : List Char) : Decidable (Lowered segment) :=
  List.decidableBAll (fun c : Char => c.isUpper = false ∧ c ≠ '_') segment

theorem lowered_toLower {c : Char} (upper : c.isUpper = true) :
    c.toLower.isUpper = false ∧ c.toLower ≠ '_' := by
  have lower := toLower_of_isUpper upper
  refine ⟨not_isUpper_of_isLower lower, ?_⟩
  intro mark
  rw [mark] at lower
  cases lower

def raised : List Char → List Char
  | [] => []
  | first :: rest => first.toUpper :: rest

def camel (segments : List (List Char)) : List Char := segments.flatMap raised

def startsWithLetter (segment : List Char) : Bool := segment.head?.any Char.isLower

def marked (segment : List Char) : List Char :=
  if startsWithLetter segment then '_' :: segment else segment

/-- The segments, each that starts with a letter behind an underscore. -/
def fuse (segments : List (List Char)) : List Char := segments.flatMap marked

def unraise (c : Char) : List Char := if c.isUpper then ['_', c.toLower] else [c]

/-- Underscores left out, the letter behind each raised. -/
def raiseMarked : Bool → List Char → List Char
  | _, [] => []
  | true, c :: rest => c.toUpper :: raiseMarked false rest
  | false, c :: rest => if c = '_' then raiseMarked true rest else c :: raiseMarked false rest

theorem flatMap_unraise {text : List Char} (lowered : Lowered text) : text.flatMap unraise = text := by
  induction text with
  | nil => rfl
  | cons c rest ih =>
    have here := (lowered c List.mem_cons_self).1
    rw [List.flatMap_cons, unraise, here, ih fun c member => lowered c (List.mem_cons_of_mem _ member)]
    rfl

theorem unraise_raised {segment : List Char} (lowered : Lowered segment) :
    (raised segment).flatMap unraise = marked segment := by
  cases segment with
  | nil => rfl
  | cons first rest =>
    have rest_same := flatMap_unraise fun c member => lowered c (List.mem_cons_of_mem first member)
    rw [raised, List.flatMap_cons, rest_same, marked, startsWithLetter, List.head?_cons, Option.any_some]
    cases letter : first.isLower with
    | true =>
      obtain ⟨upper, back⟩ := toUpper_of_isLower letter
      rw [unraise, upper, back]
      rfl
    | false =>
      rw [toUpper_of_not_isLower letter, unraise, (lowered first List.mem_cons_self).1]
      rfl

theorem unraise_camel {segments : List (List Char)} (lowered : ∀ segment ∈ segments, Lowered segment) :
    (camel segments).flatMap unraise = fuse segments := by
  rw [camel, fuse, List.flatMap_assoc]
  exact List.flatMap_congr fun segment member => unraise_raised (lowered segment member)

theorem raiseMarked_append {text : List Char} (lowered : Lowered text) (rest : List Char) :
    raiseMarked false (text ++ rest) = text ++ raiseMarked false rest := by
  induction text with
  | nil => rfl
  | cons c text ih =>
    rw [List.cons_append, raiseMarked, if_neg (lowered c List.mem_cons_self).2,
      ih fun c member => lowered c (List.mem_cons_of_mem _ member)]
    rfl

theorem raiseMarked_fuse {segments : List (List Char)} (lowered : ∀ segment ∈ segments, Lowered segment) :
    raiseMarked false (fuse segments) = camel segments := by
  induction segments with
  | nil => rfl
  | cons segment rest ih =>
    have here := lowered segment List.mem_cons_self
    have later := ih fun segment member => lowered segment (List.mem_cons_of_mem _ member)
    rw [fuse, List.flatMap_cons, ← fuse, camel, List.flatMap_cons, ← camel, ← later]
    cases segment with
    | nil => rfl
    | cons first text =>
      have tail : Lowered text := fun c member => here c (List.mem_cons_of_mem _ member)
      rw [marked, startsWithLetter, List.head?_cons, Option.any_some]
      cases letter : first.isLower with
      | true =>
        rw [if_pos rfl, List.cons_append, List.cons_append, raiseMarked, if_pos rfl, raiseMarked,
          raiseMarked_append tail]
        rfl
      | false =>
        rw [if_neg Bool.false_ne_true, raiseMarked_append here, raised, toUpper_of_not_isLower letter]

/-- Segments run together with capitals can be told apart up to the marks before letters. -/
theorem camel_eq_iff {first second : List (List Char)} (lowered : ∀ segment ∈ first, Lowered segment)
    (lowered' : ∀ segment ∈ second, Lowered segment) :
    camel first = camel second ↔ fuse first = fuse second := by
  constructor
  · intro same
    rw [← unraise_camel lowered, ← unraise_camel lowered', same]
  · intro same
    rw [← raiseMarked_fuse lowered, ← raiseMarked_fuse lowered', same]

end Camel

section Words

def flush : List Char → List (List Char)
  | [] => []
  | word => [word]

/-- The words of a text behind the start of one: runs of letters and digits, cut in front of
capitals, in lower case. -/
def wordsFrom : List Char → List Char → List (List Char)
  | current, [] => flush current
  | current, ch :: rest =>
    if ch.isAlphanum then
      if ch.isUpper then flush current ++ wordsFrom [ch.toLower] rest
      else wordsFrom (current ++ [ch]) rest
    else flush current ++ wordsFrom [] rest

def words (text : List Char) : List (List Char) := wordsFrom [] text

theorem mem_flush {word current : List Char} : word ∈ flush current ↔ word = current ∧ current ≠ [] := by
  cases current <;> simp [flush]

def Word (word : List Char) : Prop := word ≠ [] ∧ Lowered word

theorem wordsFrom_words {current text : List Char} (start : Lowered current) :
    ∀ word ∈ wordsFrom current text, Word word := by
  induction text generalizing current with
  | nil =>
    intro word member
    obtain ⟨rfl, some⟩ := mem_flush.mp member
    exact ⟨some, start⟩
  | cons ch rest ih =>
    have flushed : ∀ word ∈ flush current, Word word := by
      intro word member
      obtain ⟨rfl, some⟩ := mem_flush.mp member
      exact ⟨some, start⟩
    rw [wordsFrom]
    split
    next letter =>
      split
      next upper =>
        refine List.forall_mem_append.mpr ⟨flushed, ih ?_⟩
        simp only [Lowered, List.mem_singleton, forall_eq]
        exact lowered_toLower upper
      next other =>
        apply ih
        intro c member
        rcases List.mem_append.mp member with before | last
        · exact start c before
        · obtain rfl := List.mem_singleton.mp last
          refine ⟨Bool.eq_false_iff.mpr other, ?_⟩
          rintro rfl
          exact absurd letter (by decide)
    next => exact List.forall_mem_append.mpr ⟨flushed, ih nofun⟩

theorem words_words (text : List Char) : ∀ word ∈ words text, Word word := wordsFrom_words nofun

end Words

end Identifiers
