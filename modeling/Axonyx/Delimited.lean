import Axonyx.Grammar

/-! Texts that show where they end: whatever stands behind two of them, they are told apart.
Words end at a character of another kind, escaped texts at a quote, items between separators
where the last of them ends. -/
namespace Delimited

open Grammar (Stops stops_cons joined)

variable {τ α : Type}

/-- The codes of the two values differ wherever they stand, unless the values are equal. -/
def Splits (continues : τ → Bool) (code : α → List τ) (a b : α) : Prop :=
  ∀ x y, Stops continues x → Stops continues y → code a ++ x = code b ++ y → a = b ∧ x = y

theorem word_split {continues : τ → Bool} {u v x y : List τ} (left : ∀ c ∈ u, continues c = true)
    (right : ∀ c ∈ v, continues c = true) (before : Stops continues x) (behind : Stops continues y)
    (same : u ++ x = v ++ y) : u = v ∧ x = y := by
  induction u generalizing v with
  | nil =>
    cases v with
    | nil => exact ⟨rfl, same⟩
    | cons d v =>
      obtain rfl : x = d :: (v ++ y) := same
      have stops := stops_cons.mp before
      rw [right d List.mem_cons_self] at stops
      cases stops
  | cons c u ih =>
    cases v with
    | nil =>
      obtain rfl : c :: (u ++ x) = y := same
      have stops := stops_cons.mp behind
      rw [left c List.mem_cons_self] at stops
      cases stops
    | cons d v =>
      obtain ⟨rfl, rest⟩ := List.cons.inj same
      obtain ⟨rfl, tails⟩ := ih (fun c member => left c (List.mem_cons_of_mem _ member))
        (fun c member => right c (List.mem_cons_of_mem _ member)) rest
      exact ⟨rfl, tails⟩

/-- Up to the first mark, two texts without it are told apart. -/
theorem mark_split [DecidableEq τ] {mark : τ} {u v x y : List τ} (left : mark ∉ u) (right : mark ∉ v)
    (same : u ++ mark :: x = v ++ mark :: y) : u = v ∧ x = y := by
  have apart (w : List τ) (free : mark ∉ w) : ∀ c ∈ w, decide (c ≠ mark) = true := by
    intro c member
    exact decide_eq_true fun equal => free (equal ▸ member)
  have stop (rest : List τ) : Stops (fun c => decide (c ≠ mark)) (mark :: rest) := by simp
  obtain ⟨words, rest⟩ := word_split (apart u left) (apart v right) (stop x) (stop y) same
  exact ⟨words, (List.cons.inj rest).2⟩

/-- Escaped characters between quotes: no escape begins with the quote, and none begins another. -/
theorem quoted_split {escape : α → List τ} {quote : τ}
    (apart : ∀ a b x y, escape a ++ x = escape b ++ y → a = b ∧ x = y)
    (opens : ∀ a, ∃ c rest, escape a = c :: rest ∧ c ≠ quote) {s t : List α} {x y : List τ}
    (same : s.flatMap escape ++ quote :: x = t.flatMap escape ++ quote :: y) : s = t ∧ x = y := by
  induction s generalizing t with
  | nil =>
    cases t with
    | nil => exact ⟨rfl, (List.cons.inj same).2⟩
    | cons b t =>
      obtain ⟨c, rest, shape, other⟩ := opens b
      rw [List.flatMap_cons, shape] at same
      exact absurd (List.cons.inj same).1.symm other
  | cons a s ih =>
    cases t with
    | nil =>
      obtain ⟨c, rest, shape, other⟩ := opens a
      rw [List.flatMap_cons, shape] at same
      exact absurd (List.cons.inj same).1 other
    | cons b t =>
      rw [List.flatMap_cons, List.flatMap_cons, List.append_assoc, List.append_assoc] at same
      obtain ⟨rfl, rest⟩ := apart a b _ _ same
      obtain ⟨rfl, tails⟩ := ih rest
      exact ⟨rfl, tails⟩

section Joined

variable {continues : τ → Bool} {code : α → List τ} {separator close : τ}

/-- What stands behind the first of some joined items. -/
def behind (separator : τ) : List (List τ) → List τ
  | [] => []
  | rest => separator :: joined separator rest

theorem joined_cons (first : List τ) (rest : List (List τ)) :
    joined separator (first :: rest) = first ++ behind separator rest := by
  cases rest with
  | nil => exact (List.append_nil first).symm
  | cons => rfl

theorem stops_behind (divides : continues separator = false) (ends : continues close = false)
    (rest : List (List τ)) (x : List τ) : Stops continues (behind separator rest ++ close :: x) := by
  cases rest with
  | nil => exact stops_cons.mpr ends
  | cons => exact stops_cons.mpr divides

/-- Items between separators up to a closing mark. -/
theorem joined_split (divides : continues separator = false) (ends : continues close = false)
    (apart : separator ≠ close) {as bs : List α} {x y : List τ}
    (each : ∀ a ∈ as, ∀ b ∈ bs, Splits continues code a b)
    (left : bs = [] → ∀ a ∈ as, ∃ c rest, code a = c :: rest ∧ c ≠ close)
    (right : as = [] → ∀ b ∈ bs, ∃ c rest, code b = c :: rest ∧ c ≠ close)
    (same : joined separator (as.map code) ++ close :: x = joined separator (bs.map code) ++ close :: y) :
    as = bs ∧ x = y := by
  induction as generalizing bs with
  | nil =>
    cases bs with
    | nil => exact ⟨rfl, (List.cons.inj same).2⟩
    | cons b bs =>
      obtain ⟨c, rest, shape, other⟩ := right rfl b List.mem_cons_self
      rw [List.map_cons, joined_cons, shape] at same
      exact absurd (List.cons.inj same).1.symm other
  | cons a as ih =>
    cases bs with
    | nil =>
      obtain ⟨c, rest, shape, other⟩ := left rfl a List.mem_cons_self
      rw [List.map_cons, joined_cons, shape] at same
      exact absurd (List.cons.inj same).1 other
    | cons b bs =>
      rw [List.map_cons, List.map_cons, joined_cons, joined_cons, List.append_assoc,
        List.append_assoc] at same
      obtain ⟨rfl, rest⟩ := each a List.mem_cons_self b List.mem_cons_self _ _
        (stops_behind divides ends _ _) (stops_behind divides ends _ _) same
      cases as with
      | nil =>
        cases bs with
        | nil => exact ⟨rfl, (List.cons.inj rest).2⟩
        | cons => exact absurd (List.cons.inj rest).1.symm apart
      | cons a' as =>
        cases bs with
        | nil => exact absurd (List.cons.inj rest).1 apart
        | cons b' bs =>
          obtain ⟨others, tails⟩ := ih
            (fun a ha b hb => each a (List.mem_cons_of_mem _ ha) b (List.mem_cons_of_mem _ hb))
            nofun nofun (List.cons.inj rest).2
          exact ⟨congrArg (a :: ·) others, tails⟩

end Joined

section Digits

theorem digitChar_inj {a b : Nat} (first : a < 16) (second : b < 16)
    (same : a.digitChar = b.digitChar) : a = b := by
  have table : ∀ i < 16, ∀ j < 16, Nat.digitChar i = Nat.digitChar j → i = j := by decide
  exact table a first b second same

theorem mem_toDigits {base : Nat} (more : 1 < base) (n : Nat) :
    ∀ c ∈ Nat.toDigits base n, ∃ d < base, c = d.digitChar := by
  induction n using Nat.strongRecOn with
  | ind n ih =>
    intro c member
    rw [Nat.toDigits_eq_if more] at member
    split at member
    · next small => exact ⟨n, small, List.mem_singleton.mp member⟩
    · next large =>
      rcases List.mem_append.mp member with front | last
      · exact ih (n / base) (Nat.div_lt_self (by omega) more) c front
      · exact ⟨n % base, Nat.mod_lt n (by omega), List.mem_singleton.mp last⟩

/-- The digits of a number, in a base up to sixteen, are those of no other. -/
theorem toDigits_inj {base : Nat} (more : 1 < base) (few : base ≤ 16) {m n : Nat}
    (same : Nat.toDigits base m = Nat.toDigits base n) : m = n := by
  induction m using Nat.strongRecOn generalizing n with
  | ind m ih =>
    rw [Nat.toDigits_eq_if more, Nat.toDigits_eq_if (n := n) more] at same
    split at same
    · next small =>
      split at same
      · next small' => exact digitChar_inj (by omega) (by omega) (List.cons.inj same).1
      · have length := congrArg List.length same
        rw [List.length_append, List.length_singleton] at length
        have digits := List.length_pos_iff.mpr (Nat.toDigits_ne_nil (n := n / base) (b := base))
        simp only [List.length_singleton] at length
        omega
    · next large =>
      split at same
      · have length := congrArg List.length same
        rw [List.length_append, List.length_singleton] at length
        have digits := List.length_pos_iff.mpr (Nat.toDigits_ne_nil (n := m / base) (b := base))
        simp only [List.length_singleton] at length
        omega
      · next large' =>
        obtain ⟨front, last⟩ := List.append_inj' same rfl
        have quotient := ih (m / base) (Nat.div_lt_self (by omega) more) front
        have low := Nat.mod_lt m (show 0 < base by omega)
        have low' := Nat.mod_lt n (show 0 < base by omega)
        have remainder := digitChar_inj (by omega) (by omega) (List.cons.inj last).1
        rw [← Nat.div_add_mod m base, ← Nat.div_add_mod n base, quotient, remainder]

end Digits

end Delimited
