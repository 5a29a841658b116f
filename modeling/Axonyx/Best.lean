import Mathlib.Data.Prod.Lex
import Mathlib.Order.Basic

/-! The first best of a list of candidates: a later one replaces it only with a higher score. -/
namespace Axonyx.Best

variable {α σ : Type} [LinearOrder σ]

/-- Replace the best so far by a candidate with a higher score. -/
def pick (best candidate : Option (α × σ)) : Option (α × σ) :=
  match candidate with
  | none => best
  | some candidate =>
    match best with
    | none => some candidate
    | some current => if current.2 ≥ candidate.2 then some current else some candidate

def firstBest (candidates : List (Option (α × σ))) : Option (α × σ) := candidates.foldl pick none

/-- The candidate is above all candidates before it, and no candidate behind it is higher. -/
def IsFirstBest (candidates : List (Option (α × σ))) (winner : α × σ) : Prop :=
  ∃ before after, candidates = before ++ some winner :: after ∧
    (∀ other, some other ∈ before → other.2 < winner.2) ∧
    ∀ other, some other ∈ after → other.2 ≤ winner.2

theorem IsFirstBest.mem {candidates : List (Option (α × σ))} {winner : α × σ}
    (first : IsFirstBest candidates winner) : some winner ∈ candidates := by
  obtain ⟨before, after, rfl, -, -⟩ := first
  exact List.mem_append_right before List.mem_cons_self

theorem IsFirstBest.bound {candidates : List (Option (α × σ))} {winner other : α × σ}
    (first : IsFirstBest candidates winner) (member : some other ∈ candidates) :
    other.2 ≤ winner.2 := by
  obtain ⟨before, after, rfl, below, behind⟩ := first
  rcases List.mem_append.mp member with earlier | later
  · exact (below other earlier).le
  · rcases List.mem_cons.mp later with same | later
    · cases same
      exact le_refl _
    · exact behind other later

theorem IsFirstBest.skip {candidates : List (Option (α × σ))} {winner : α × σ}
    (first : IsFirstBest candidates winner) {candidate : Option (α × σ)}
    (lower : ∀ other, candidate = some other → other.2 < winner.2) :
    IsFirstBest (candidate :: candidates) winner := by
  obtain ⟨before, after, rfl, below, behind⟩ := first
  refine ⟨candidate :: before, after, rfl, fun other member => ?_, behind⟩
  rcases List.mem_cons.mp member with same | earlier
  · exact lower other same.symm
  · exact below other earlier

/-- A candidate behind one that is as good changes nothing. -/
theorem IsFirstBest.insert {rest : List (Option (α × σ))} {winner first other : α × σ}
    (best : IsFirstBest (some first :: rest) winner) (lower : other.2 ≤ first.2) :
    IsFirstBest (some first :: some other :: rest) winner := by
  obtain ⟨before, after, split, below, behind⟩ := best
  cases before with
  | nil =>
    obtain ⟨same, rfl⟩ := List.cons.inj split
    cases same
    refine ⟨[], some other :: rest, rfl, by simp, fun another member => ?_⟩
    rcases List.mem_cons.mp member with same | later
    · cases same
      exact lower
    · exact behind another later
  | cons head before =>
    obtain ⟨rfl, rfl⟩ := List.cons.inj split
    refine ⟨some first :: some other :: before, after, rfl, fun another member => ?_, behind⟩
    rcases List.mem_cons.mp member with same | later
    · cases same
      exact below _ List.mem_cons_self
    · rcases List.mem_cons.mp later with same | later
      · cases same
        exact lower.trans_lt (below _ List.mem_cons_self)
      · exact below another (List.mem_cons_of_mem _ later)

theorem foldl_pick_some (candidates : List (Option (α × σ))) (current : α × σ) :
    ∃ winner, candidates.foldl pick (some current) = some winner ∧
      IsFirstBest (some current :: candidates) winner := by
  induction candidates generalizing current with
  | nil => exact ⟨current, rfl, [], [], rfl, by simp, by simp⟩
  | cons candidate rest ih =>
    rw [List.foldl_cons]
    cases candidate with
    | none =>
      obtain ⟨winner, found, before, after, split, below, behind⟩ := ih current
      refine ⟨winner, found, ?_⟩
      cases before with
      | nil =>
        obtain ⟨same, rfl⟩ := List.cons.inj split
        cases same
        exact ⟨[], none :: rest, rfl, by simp, by simpa using behind⟩
      | cons head before =>
        obtain ⟨rfl, rfl⟩ := List.cons.inj split
        exact ⟨some current :: none :: before, after, rfl, by simpa using below, behind⟩
    | some other =>
      by_cases lower : current.2 ≥ other.2
      · obtain ⟨winner, found, best⟩ := ih current
        refine ⟨winner, ?_, best.insert lower⟩
        rw [← found]
        simp only [pick, if_pos lower]
      · obtain ⟨winner, found, best⟩ := ih other
        have above : other.2 ≤ winner.2 := best.bound List.mem_cons_self
        refine ⟨winner, ?_, best.skip fun another same => ?_⟩
        · rw [← found]
          simp only [pick, if_neg lower]
        · cases same
          exact (not_le.mp lower).trans_le above

theorem firstBest_spec (candidates : List (Option (α × σ))) :
    (firstBest candidates = none ∧ ∀ candidate ∈ candidates, candidate = none) ∨
      ∃ winner, firstBest candidates = some winner ∧ IsFirstBest candidates winner := by
  unfold firstBest
  induction candidates with
  | nil => exact .inl ⟨rfl, by simp⟩
  | cons candidate rest ih =>
    rw [List.foldl_cons]
    cases candidate with
    | none =>
      rcases ih with ⟨found, all⟩ | ⟨winner, found, best⟩
      · exact .inl ⟨found, by simpa using all⟩
      · exact .inr ⟨winner, found, best.skip fun other same => by cases same⟩
    | some current => exact .inr (foldl_pick_some rest current)

/-- The winner of a list is the only first best up to its position. -/
theorem IsFirstBest.unique {candidates : List (Option (α × σ))} {first second : α × σ}
    (one : IsFirstBest candidates first) (two : IsFirstBest candidates second) :
    first = second := by
  obtain ⟨before, after, split, below, behind⟩ := one
  obtain ⟨before', after', split', below', behind'⟩ := two
  rw [split] at split'
  rcases List.append_eq_append_iff.mp split' with ⟨middle, grown, rest⟩ | ⟨middle, grown, rest⟩
  · cases middle with
    | nil =>
      obtain ⟨same, -⟩ := List.cons.inj rest
      exact Option.some.inj same
    | cons head middle =>
      obtain ⟨same, rest⟩ := List.cons.inj rest
      have higher : first.2 < second.2 := below' first (by rw [grown, ← same]; simp)
      have lower : second.2 ≤ first.2 := behind second (by rw [rest]; simp)
      exact absurd higher (not_lt.mpr lower)
  · cases middle with
    | nil =>
      obtain ⟨same, -⟩ := List.cons.inj rest
      exact (Option.some.inj same).symm
    | cons head middle =>
      obtain ⟨same, rest⟩ := List.cons.inj rest
      have higher : second.2 < first.2 := below second (by rw [grown, ← same]; simp)
      have lower : first.2 ≤ second.2 := behind' first (by rw [rest]; simp)
      exact absurd higher (not_lt.mpr lower)

theorem firstBest_eq_some_iff {candidates : List (Option (α × σ))} {winner : α × σ} :
    firstBest candidates = some winner ↔ IsFirstBest candidates winner := by
  rcases firstBest_spec candidates with ⟨found, all⟩ | ⟨other, found, best⟩
  · rw [found]
    refine iff_of_false (fun absurd => by cases absurd) fun best => ?_
    cases all _ best.mem
  · rw [found, Option.some.injEq]
    refine ⟨fun same => same ▸ best, fun same => best.unique same⟩

theorem firstBest_eq_none_iff {candidates : List (Option (α × σ))} :
    firstBest candidates = none ↔ ∀ candidate ∈ candidates, candidate = none := by
  rcases firstBest_spec candidates with ⟨found, all⟩ | ⟨other, found, best⟩
  · exact iff_of_true found all
  · rw [found]
    refine iff_of_false (fun absurd => by cases absurd) fun all => ?_
    cases all _ best.mem

end Axonyx.Best
